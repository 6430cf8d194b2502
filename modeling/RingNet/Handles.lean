import RingNet.Lib.Owners
import RingNet.Lib.Runs
import RingNet.Objects
/-!
# Who closes a descriptor

`FileDescriptor` and `Connection` objects by themselves: they are constructed,
moved, assigned and destroyed in any order. Descriptors are numbered in the
order the kernel makes them, since a number that was closed is handed out
again; `table` says which descriptor a number denotes.

A move assignment swaps, so what the target held is closed later, by the
destruction of the moved-from object.

`disposals` and `dropped` are for the proofs only: the calls the destructors
made, each recorded where it is made, and the descriptors whose holder was
destroyed.
-/

namespace RingNet

open Lib

inductive Handle
  | descriptor (d : FileDescriptor)
  | connection (c : Connection)

/-- A call made by the destructor of the object `obj`: `loop.cancel`, or
`::close` as the last thing a `FileDescriptor` or a `Connection` does. -/
inductive Disposal
  | cancel (obj : Nat) (fd : Fd) (descriptor : Option Nat)
  | closeByDescriptor (obj : Nat) (fd : Fd) (descriptor : Option Nat)
  | closeByConnection (obj : Nat) (fd : Fd) (descriptor : Option Nat)
  deriving DecidableEq, Repr

def Disposal.descriptor : Disposal → Option Nat
  | .cancel _ _ s | .closeByDescriptor _ _ s | .closeByConnection _ _ s => s

namespace Handle

def socket : Handle → FileDescriptor
  | .descriptor d => d
  | .connection c => c.socket

/-- The calls the destructor makes, for an object that holds `descriptor`. -/
def disposals (o : Handle) (obj : Nat) (descriptor : Option Nat) : List Disposal :=
  match o with
  | .descriptor d => d.closes.toList.map fun fd => .closeByDescriptor obj fd descriptor
  | .connection c =>
    (if c.socket.valid then [.cancel obj c.socket.fd descriptor] else []) ++
      c.socket.closes.toList.map fun fd => .closeByConnection obj fd descriptor

end Handle

structure Handles where
  loop : EventLoop
  objects : Nat → Option Handle := fun _ => none
  table : Fd → Option Nat := fun _ => none
  nextDescriptor : Nat := 0
  nextSubscriber : SubscriberId := 0
  disposals : List Disposal := []
  dropped : List Nat := []

namespace Handles

inductive Call
  /-- A `FileDescriptor` made of a number the kernel returned, or of nothing. -/
  | newDescriptor (obj : Nat) (fd : Option Fd)
  | newConnection (obj source : Nat)
  | moveConstruct (obj other : Nat)
  | moveAssign (obj other : Nat)
  | destroy (obj : Nat) (taken : Nat)
  deriving DecidableEq, Repr

def new (ringEntries : Nat) (status : Int) : Handles := { loop := .new ringEntries status }

def put (h : Handles) (obj : Nat) (o : Option Handle) : Handles :=
  { h with objects := Function.update h.objects obj o }

/-- The kernel makes a descriptor and returns its number. -/
def openDescriptor (h : Handles) (fd : Fd) : Handles :=
  { h with table := Function.update h.table fd (some h.nextDescriptor), nextDescriptor := h.nextDescriptor + 1 }

/-- The body of `~Connection`. -/
def cancelSocket (h : Handles) (obj : Nat) (socket : FileDescriptor) (taken : Nat) : Handles :=
  if socket.valid then
    { h with
      loop := h.loop.cancel socket.fd taken
      disposals := h.disposals ++ [.cancel obj socket.fd (h.table socket.fd)] }
  else h

/-- `~FileDescriptor`, of an object or of a member. -/
def closeSocket (h : Handles) (disposal : Fd → Option Nat → Disposal) (socket : FileDescriptor) : Handles :=
  match socket.closes with
  | some fd =>
    { h with
      table := Function.update h.table fd none
      disposals := h.disposals ++ [disposal fd (h.table fd)] }
  | none => h

/-- The destructor: a `Connection`'s body runs first, then its member's destructor. -/
def destroyHandle (h : Handles) (obj : Nat) (o : Handle) (taken : Nat) : Handles :=
  let dropped := h.dropped ++ (h.table o.socket.fd).toList
  let h := match o with
    | .descriptor d => h.closeSocket (.closeByDescriptor obj) d
    | .connection c => (h.cancelSocket obj c.socket taken).closeSocket (.closeByConnection obj) c.socket
  { h.put obj none with dropped }

def step (h : Handles) : Call → Except Stop Handles
  | .newDescriptor obj none =>
    if (h.objects obj).isNone then .ok (h.put obj (some (.descriptor {}))) else .error .disabled
  | .newDescriptor obj (some fd) =>
    -- the kernel hands out a number that is not in use
    if (h.objects obj).isNone ∧ 0 ≤ fd ∧ (h.table fd).isNone then
      .ok ((h.openDescriptor fd).put obj (some (.descriptor ⟨fd⟩)))
    else .error .disabled
  | .newConnection obj source =>
    match h.objects obj, h.objects source with
    | none, some (.descriptor d) =>
      let made := Connection.new d h.nextSubscriber
      .ok { (h.put obj (some (.connection made.1))).put source (some (.descriptor made.2)) with
        nextSubscriber := h.nextSubscriber + 1 }
    | _, _ => .error .disabled
  | .moveConstruct obj other =>
    match h.objects obj, h.objects other with
    | none, some (.descriptor d) =>
      .ok ((h.put obj (some (.descriptor d.moveConstruct.1))).put other (some (.descriptor d.moveConstruct.2)))
    | none, some (.connection c) =>
      .ok ((h.put obj (some (.connection c.moveConstruct.1))).put other (some (.connection c.moveConstruct.2)))
    | _, _ => .error .disabled
  | .moveAssign obj other =>
    match h.objects obj, h.objects other with
    | some (.descriptor d), some (.descriptor e) =>
      -- self-move swaps the number with itself
      if obj = other then .ok h
      else
        .ok ((h.put obj (some (.descriptor (d.moveAssign e).1))).put other (some (.descriptor (d.moveAssign e).2)))
    | some (.connection c), some (.connection d) =>
      if obj = other then .ok h
      else
        .ok ((h.put obj (some (.connection (c.moveAssign d).1))).put other (some (.connection (c.moveAssign d).2)))
    | _, _ => .error .disabled
  | .destroy obj taken =>
    match h.objects obj with
    | none => .error .disabled
    | some o => .ok (h.destroyHandle obj o taken)

/-- What the destructor's calls come to: the loop's `cancel` for a `Connection`
with a positive descriptor, the close, and the record of both. -/
theorem destroyHandle_eq (h : Handles) (obj : Nat) (o : Handle) (taken : Nat) :
    h.destroyHandle obj o taken = { h.put obj none with
      loop := match o with
        | .descriptor _ => h.loop
        | .connection c => if 0 < c.socket.fd then h.loop.cancel c.socket.fd taken else h.loop
      table := if 0 < o.socket.fd then Function.update h.table o.socket.fd none else h.table
      disposals := h.disposals ++ o.disposals obj (h.table o.socket.fd)
      dropped := h.dropped ++ (h.table o.socket.fd).toList } := by
  cases o with
  | descriptor d =>
    by_cases hv : 0 < d.fd <;>
      simp [destroyHandle, put, closeSocket, FileDescriptor.closes, Handle.disposals, Handle.socket, hv]
  | connection c =>
    by_cases hv : 0 < c.socket.fd <;>
      simp [destroyHandle, put, closeSocket, cancelSocket, FileDescriptor.closes, FileDescriptor.valid, Handle.disposals,
        Handle.socket, hv]

/-! ## What a call does to the holders -/

/-- The effect of a call on who holds what: nothing, a new descriptor, an
exchange between two objects, or a destruction. -/
inductive Effect (h : Handles) : Call → Handles → Prop
  | selfMove {obj} : Effect h (.moveAssign obj obj) h
  | empty {obj} : h.objects obj = none →
      Effect h (.newDescriptor obj none) (h.put obj (some (.descriptor {})))
  | create {obj fd} : h.objects obj = none → 0 ≤ fd → h.table fd = none →
      Effect h (.newDescriptor obj (some fd)) ((h.openDescriptor fd).put obj (some (.descriptor ⟨fd⟩)))
  -- `obj` gets what `other` had, and `other` what `obj` had, if there was an `obj`
  | exchange {c obj other o p q nextSubscriber} : (∀ obj taken, c ≠ .destroy obj taken) → obj ≠ other →
      h.objects other = some o → p.socket.fd = o.socket.fd →
      (h.objects obj = none ∧ q.socket.fd = -1 ∨ ∃ o', h.objects obj = some o' ∧ q.socket.fd = o'.socket.fd) →
      Effect h c { (h.put obj (some p)).put other (some q) with nextSubscriber }
  | destroy {obj taken o} : h.objects obj = some o → Effect h (.destroy obj taken) (h.destroyHandle obj o taken)

theorem step_effect {h h' : Handles} {c : Call} (hs : h.step c = .ok h') : Effect h c h' := by
  have hne : ∀ {obj other : Nat} {o : Handle}, h.objects obj = none → h.objects other = some o → obj ≠ other := by
    intro obj other o hobj hother e
    rw [e, hother] at hobj
    cases hobj
  cases c with
  | newDescriptor obj fd =>
    cases fd with
    | none =>
      simp only [step, Option.isNone_iff_eq_none] at hs
      split at hs
      · rename_i hobj
        cases hs
        exact .empty hobj
      · cases hs
    | some fd =>
      simp only [step, Option.isNone_iff_eq_none] at hs
      split at hs
      · rename_i hg
        cases hs
        exact .create hg.1 hg.2.1 hg.2.2
      · cases hs
  | newConnection obj source =>
    simp only [step] at hs
    split at hs
    · rename_i hobj hsrc
      cases hs
      exact .exchange (by simp) (hne hobj hsrc) hsrc rfl (.inl ⟨hobj, rfl⟩)
    · cases hs
  | moveConstruct obj other =>
    simp only [step] at hs
    split at hs
    · rename_i hobj hother
      cases hs
      exact .exchange (by simp) (hne hobj hother) hother rfl (.inl ⟨hobj, rfl⟩)
    · rename_i hobj hother
      cases hs
      exact .exchange (by simp) (hne hobj hother) hother rfl (.inl ⟨hobj, rfl⟩)
    · cases hs
  | moveAssign obj other =>
    simp only [step] at hs
    split at hs
    · rename_i hobj hother
      split at hs
      · rename_i he
        subst he
        cases hs
        exact .selfMove
      · rename_i hne
        cases hs
        exact .exchange (by simp) hne hother rfl (.inr ⟨_, hobj, rfl⟩)
    · rename_i hobj hother
      split at hs
      · rename_i he
        subst he
        cases hs
        exact .selfMove
      · rename_i hne
        cases hs
        exact .exchange (by simp) hne hother rfl (.inr ⟨_, hobj, rfl⟩)
    · cases hs
  | destroy obj taken =>
    simp only [step] at hs
    split at hs
    · cases hs
    · rename_i ho
      cases hs
      exact .destroy ho

/-! ## One holder -/

/-- The descriptor an object holds. -/
def own (h : Handles) (obj : Nat) : Option Nat := (h.objects obj).bind fun o => h.table o.socket.fd

/-- The calls destructors made about a descriptor. -/
def trace (h : Handles) (s : Nat) : List Disposal := h.disposals.filter (·.descriptor == some s)

/-- Holders, the table and the record of calls fit together. -/
structure Holding (h : Handles) : Prop where
  owners : Owners h.own h.nextDescriptor h.dropped
  nonneg : ∀ fd s, h.table fd = some s → 0 ≤ fd
  held : ∀ obj o, h.objects obj = some o → 0 ≤ o.socket.fd → ∃ s, h.table o.socket.fd = some s
  known : ∀ d ∈ h.disposals, ∃ s ∈ h.dropped, d.descriptor = some s
  once : ∀ s, h.trace s = [] ∨ ∃ obj fd, 0 < fd ∧
    (h.trace s = [.closeByDescriptor obj fd (some s)] ∨
      h.trace s = [.cancel obj fd (some s), .closeByConnection obj fd (some s)])

theorem Holding.table_neg {h : Handles} (hh : Holding h) {fd : Fd} (hfd : fd < 0) : h.table fd = none := by
  cases ht : h.table fd with
  | none => rfl
  | some s => exact absurd (hh.nonneg fd s ht) (Int.not_le.2 hfd)

/-- A number names one descriptor, so two holders of a number are one. -/
theorem Holding.unique {h : Handles} (hh : Holding h) {i j : Nat} {o o' : Handle} (hi : h.objects i = some o)
    (hj : h.objects j = some o') (h0 : 0 ≤ o.socket.fd) (he : o.socket.fd = o'.socket.fd) : i = j := by
  obtain ⟨s, hs⟩ := hh.held i o hi h0
  apply hh.owners.unique i j s
  · simp [own, hi, hs]
  · simp [own, hj, ← he, hs]

/-- Nothing was called about a descriptor that has not been given up. -/
theorem Holding.trace_nil {h : Handles} (hh : Holding h) {s : Nat} (hs : s ∉ h.dropped) : h.trace s = [] := by
  refine List.filter_eq_nil_iff.2 fun d hd hds => ?_
  obtain ⟨s', hs', hd'⟩ := hh.known d hd
  rw [hd', beq_iff_eq, Option.some.injEq] at hds
  exact hs (hds ▸ hs')

theorem own_put (h : Handles) (obj : Nat) (o : Option Handle) :
    (h.put obj o).own = Function.update h.own obj (o.bind fun o => h.table o.socket.fd) := by
  funext j
  by_cases hj : j = obj
  · subst hj
    simp [own, put]
  · simp [own, put, hj]

/-! ## One call -/

/-- A call that makes no destructor call and gives up nothing. -/
theorem holding_frame {h h' : Handles} (hh : Holding h) (ho : Owners h'.own h'.nextDescriptor h.dropped)
    (hnonneg : ∀ fd s, h'.table fd = some s → 0 ≤ fd)
    (hheld : ∀ obj o, h'.objects obj = some o → 0 ≤ o.socket.fd → ∃ s, h'.table o.socket.fd = some s)
    (hdis : h'.disposals = h.disposals) (hdrop : h'.dropped = h.dropped) : Holding h' := by
  refine ⟨hdrop ▸ ho, hnonneg, hheld, ?_, ?_⟩
  · rw [hdis, hdrop]
    exact hh.known
  · simp only [trace, hdis]
    exact hh.once

theorem holding_empty {h : Handles} (hh : Holding h) {obj : Nat} (hobj : h.objects obj = none) :
    Holding (h.put obj (some (.descriptor {}))) := by
  refine holding_frame hh ?_ hh.nonneg ?_ rfl rfl
  · have hsame : (h.put obj (some (.descriptor {}))).own = h.own := by
      rw [own_put, Option.bind_some, hh.table_neg (by decide)]
      have h0 : h.own obj = none := by simp [own, hobj]
      rw [← h0, Function.update_eq_self]
    rw [hsame]
    exact hh.owners
  · intro j o hj h0
    rcases update_some_cases hj with ⟨-, rfl⟩ | ⟨-, hj⟩
    · exact absurd h0 (by decide)
    · exact hh.held j o hj h0

theorem holding_create {h : Handles} (hh : Holding h) {obj : Nat} {fd : Fd} (hobj : h.objects obj = none)
    (h0 : 0 ≤ fd) (hfree : h.table fd = none) :
    Holding ((h.openDescriptor fd).put obj (some (.descriptor ⟨fd⟩))) := by
  refine holding_frame hh ?_ ?_ ?_ rfl rfl
  · -- the others hold other numbers, since theirs are in use
    have hold : (h.openDescriptor fd).own = h.own := by
      funext j
      simp only [own, openDescriptor]
      cases hj : h.objects j with
      | none => rfl
      | some o =>
        have hne : o.socket.fd ≠ fd := by
          intro e
          obtain ⟨s, hs⟩ := hh.held j o hj (e ▸ h0)
          rw [e, hfree] at hs
          cases hs
        simp [hne]
    rw [own_put, hold]
    have hnew : ((some (Handle.descriptor ⟨fd⟩)).bind fun o => (h.openDescriptor fd).table o.socket.fd) =
        some h.nextDescriptor := Function.update_self ..
    rw [hnew]
    exact hh.owners.create (by simp [own, hobj])
  · intro fd' s hs
    rcases update_some_cases hs with ⟨rfl, -⟩ | ⟨-, hs⟩
    · exact h0
    · exact hh.nonneg fd' s hs
  · intro j o hj hfd
    show ∃ s, Function.update h.table fd (some h.nextDescriptor) o.socket.fd = some s
    by_cases he : o.socket.fd = fd
    · rw [he, Function.update_self]
      exact ⟨_, rfl⟩
    · rw [Function.update_of_ne he]
      rcases update_some_cases hj with ⟨-, rfl⟩ | ⟨-, hj⟩
      · exact absurd rfl he
      · exact hh.held j o hj hfd

theorem holding_exchange {h : Handles} (hh : Holding h) {obj other : Nat} {o p q : Handle} {next : SubscriberId}
    (hne : obj ≠ other) (hother : h.objects other = some o) (hp : p.socket.fd = o.socket.fd)
    (hq : h.objects obj = none ∧ q.socket.fd = -1 ∨ ∃ o', h.objects obj = some o' ∧ q.socket.fd = o'.socket.fd) :
    Holding { (h.put obj (some p)).put other (some q) with nextSubscriber := next } := by
  refine holding_frame hh ?_ hh.nonneg ?_ rfl rfl
  · have hval : h.table q.socket.fd = h.own obj := by
      rcases hq with ⟨hobj, hq⟩ | ⟨o', hobj, hq⟩
      · rw [hq, hh.table_neg (by decide)]
        simp [own, hobj]
      · rw [hq]
        simp [own, hobj]
    have hval' : h.table p.socket.fd = h.own other := by
      rw [hp]
      simp [own, hother]
    have hswap : ((h.put obj (some p)).put other (some q)).own = fun j => h.own (Equiv.swap obj other j) := by
      funext j
      rw [own_put, own_put]
      simp only [Option.bind_some]
      by_cases h2 : j = other
      · subst h2
        rw [Function.update_self, Equiv.swap_apply_right]
        exact hval
      · rw [Function.update_of_ne h2]
        by_cases h1 : j = obj
        · subst h1
          rw [Function.update_self, Equiv.swap_apply_left]
          exact hval'
        · rw [Function.update_of_ne h1, Equiv.swap_apply_of_ne_of_ne h1 h2]
    show Owners ((h.put obj (some p)).put other (some q)).own _ _
    rw [hswap]
    exact hh.owners.swap obj other
  · intro j x hj h0
    show ∃ s, h.table x.socket.fd = some s
    rcases update_some_cases hj with ⟨-, rfl⟩ | ⟨-, hj⟩
    · rcases hq with ⟨-, hq⟩ | ⟨o', hobj, hq⟩
      · rw [hq] at h0
        exact absurd h0 (by decide)
      · rw [hq] at h0 ⊢
        exact hh.held obj o' hobj h0
    · rcases update_some_cases hj with ⟨-, rfl⟩ | ⟨-, hj⟩
      · rw [hp] at h0 ⊢
        exact hh.held other o hother h0
      · exact hh.held j x hj h0

/-- The calls a destructor makes: none for a number that is not positive, else
all of them about the descriptor it holds. -/
theorem disposals_cases (o : Handle) (obj : Nat) (descriptor : Option Nat) :
    (¬ 0 < o.socket.fd ∧ o.disposals obj descriptor = []) ∨
      (0 < o.socket.fd ∧ ((∃ d, o = .descriptor d ∧
          o.disposals obj descriptor = [.closeByDescriptor obj o.socket.fd descriptor]) ∨
        ∃ c, o = .connection c ∧ o.disposals obj descriptor =
          [.cancel obj o.socket.fd descriptor, .closeByConnection obj o.socket.fd descriptor])) := by
  cases o with
  | descriptor d =>
    by_cases hv : 0 < d.fd
    · exact .inr ⟨hv, .inl ⟨d, rfl, by simp [Handle.disposals, FileDescriptor.closes, hv, Handle.socket]⟩⟩
    · exact .inl ⟨hv, by simp [Handle.disposals, FileDescriptor.closes, hv]⟩
  | connection c =>
    by_cases hv : 0 < c.socket.fd
    · refine .inr ⟨hv, .inr ⟨c, rfl, ?_⟩⟩
      simp [Handle.disposals, FileDescriptor.closes, FileDescriptor.valid, hv, Handle.socket]
    · exact .inl ⟨hv, by simp [Handle.disposals, FileDescriptor.closes, FileDescriptor.valid, hv]⟩

theorem disposals_descriptor {o : Handle} {obj : Nat} {descriptor : Option Nat} {d : Disposal}
    (hd : d ∈ o.disposals obj descriptor) : 0 < o.socket.fd ∧ d.descriptor = descriptor := by
  rcases disposals_cases o obj descriptor with ⟨-, he⟩ | ⟨hv, ⟨_, -, he⟩ | ⟨_, -, he⟩⟩ <;> rw [he] at hd
  · cases hd
  · rw [List.mem_singleton] at hd
    subst hd
    exact ⟨hv, rfl⟩
  · simp only [List.mem_cons, List.not_mem_nil, or_false] at hd
    rcases hd with rfl | rfl <;> exact ⟨hv, rfl⟩

theorem trace_destroyHandle (h : Handles) (obj : Nat) (o : Handle) (taken s : Nat) :
    (h.destroyHandle obj o taken).trace s =
      h.trace s ++ if h.table o.socket.fd = some s then o.disposals obj (some s) else [] := by
  rw [trace, destroyHandle_eq, List.filter_append]
  congr 1
  split
  · rename_i he
    rw [he]
    refine List.filter_eq_self.2 fun d hd => ?_
    rw [(disposals_descriptor hd).2, beq_self_eq_true]
  · rename_i hne
    refine List.filter_eq_nil_iff.2 fun d hd he => ?_
    rw [(disposals_descriptor hd).2, beq_iff_eq] at he
    exact hne he

/-- The others hold other numbers. -/
theorem own_destroyHandle {h : Handles} (hh : Holding h) {obj : Nat} {o : Handle} (ho : h.objects obj = some o)
    (taken : Nat) : (h.destroyHandle obj o taken).own = Function.update h.own obj none := by
  funext j
  by_cases hj : j = obj
  · subst hj
    simp [own, destroyHandle_eq, put]
  · rw [Function.update_of_ne hj]
    simp only [own, destroyHandle_eq, put, Function.update_of_ne hj]
    cases hx : h.objects j with
    | none => rfl
    | some x =>
      simp only [Option.bind_some]
      split
      · rename_i hv
        have hne : x.socket.fd ≠ o.socket.fd := by
          intro e
          exact hj (hh.unique hx ho (e ▸ Int.le_of_lt hv) e)
        exact Function.update_of_ne hne _ _
      · rfl

theorem holding_destroy {h : Handles} (hh : Holding h) {obj : Nat} {o : Handle} (ho : h.objects obj = some o)
    (taken : Nat) : Holding (h.destroyHandle obj o taken) := by
  have hown : h.own obj = h.table o.socket.fd := by simp [own, ho]
  refine ⟨?_, ?_, ?_, ?_, ?_⟩
  · rw [own_destroyHandle hh ho, destroyHandle_eq]
    show Owners _ h.nextDescriptor (h.dropped ++ (h.table o.socket.fd).toList)
    rw [← hown]
    exact hh.owners.drop obj
  · intro fd s hs
    simp only [destroyHandle_eq] at hs
    split at hs
    · exact hh.nonneg fd s (update_none_cases hs).2
    · exact hh.nonneg fd s hs
  · intro j x hj h0
    rw [destroyHandle_eq] at hj ⊢
    obtain ⟨hne, hj⟩ := update_none_cases hj
    dsimp only
    split
    · rename_i hv
      have hfd : x.socket.fd ≠ o.socket.fd := fun e => hne (hh.unique hj ho h0 e)
      rw [Function.update_of_ne hfd]
      exact hh.held j x hj h0
    · exact hh.held j x hj h0
  · intro d hd
    rw [destroyHandle_eq] at hd ⊢
    rcases List.mem_append.1 hd with hd | hd
    · obtain ⟨s, hs, hds⟩ := hh.known d hd
      exact ⟨s, List.mem_append_left _ hs, hds⟩
    · obtain ⟨hv, hds⟩ := disposals_descriptor hd
      obtain ⟨s, hs⟩ := hh.held obj o ho (Int.le_of_lt hv)
      refine ⟨s, List.mem_append_right _ ?_, hds.trans hs⟩
      rw [hs]
      exact List.mem_singleton_self s
  · intro s
    rw [trace_destroyHandle]
    split
    · -- the descriptor it holds: nothing was called about it before
      rename_i hs
      have hnil := hh.trace_nil (hh.owners.alive obj s (hown.trans hs))
      rw [hnil, List.nil_append]
      rcases disposals_cases o obj (some s) with ⟨-, he⟩ | ⟨hv, ⟨_, -, he⟩ | ⟨_, -, he⟩⟩ <;> rw [he]
      · exact .inl rfl
      · exact .inr ⟨obj, o.socket.fd, hv, .inl rfl⟩
      · exact .inr ⟨obj, o.socket.fd, hv, .inr rfl⟩
    · rw [List.append_nil]
      exact hh.once s

theorem holding_step {h h' : Handles} {c : Call} (hh : Holding h) (he : Effect h c h') : Holding h' := by
  cases he with
  | selfMove => exact hh
  | empty hobj => exact holding_empty hh hobj
  | create hobj h0 hfree => exact holding_create hh hobj h0 hfree
  | exchange _ hne hother hp hq => exact holding_exchange hh hne hother hp hq
  | destroy ho => exact holding_destroy hh ho _

theorem reach_holding {n : Nat} {st : Int} {h : Handles} (hr : Run step anyAction (new n st) h) : Holding h := by
  refine Run.inv Holding ?_ (fun _ _ _ hi _ hs => holding_step hi (step_effect hs)) hr
  have hown : (new n st).own = fun _ => none := rfl
  refine ⟨?_, by simp [new], by simp [new], by simp [new], fun s => .inl rfl⟩
  rw [hown]
  exact Owners.empty

/-- Only a destruction makes calls, and those of the object destroyed. -/
theorem effect_disposals {h h' : Handles} {c : Call} (he : Effect h c h') :
    h'.disposals = h.disposals ∨ ∃ obj taken o, c = .destroy obj taken ∧ h.objects obj = some o ∧
      h'.disposals = h.disposals ++ o.disposals obj (h.table o.socket.fd) := by
  cases he with
  | @destroy obj taken o ho => exact .inr ⟨obj, taken, o, rfl, ho, congrArg (·.disposals) (destroyHandle_eq ..)⟩
  | _ => exact .inl rfl

/-- The loop is called by the destruction of a `Connection` with a positive descriptor only. -/
theorem effect_loop {h h' : Handles} {c : Call} (he : Effect h c h')
    (hc : ∀ obj taken k, c = .destroy obj taken → h.objects obj = some (.connection k) → k.socket.fd ≤ 0) :
    h'.loop = h.loop := by
  cases he with
  | @destroy obj taken o ho =>
    rw [destroyHandle_eq]
    cases o with
    | descriptor d => rfl
    | connection k => exact if_neg (Int.not_lt.2 (hc obj taken k rfl ho))
  | _ => rfl

/-- However objects are constructed, moved, assigned and destroyed: an open
descriptor has at most one holder, it is closed by the destruction of the
object that holds it and not again, and if that is a `Connection` then the
loop's `cancel` was called on it once, just before. -/
theorem descriptors_closed_once {n : Nat} {st : Int} {h : Handles} (hr : Run step anyAction (new n st) h) :
    -- one holder, of a descriptor that has not been closed
    (∀ i j o o', h.objects i = some o → h.objects j = some o' → 0 ≤ o.socket.fd → o.socket.fd = o'.socket.fd → i = j) ∧
      (∀ i o, h.objects i = some o → 0 ≤ o.socket.fd → ∃ s, h.table o.socket.fd = some s ∧ h.trace s = []) ∧
      -- only the destruction of the holder makes calls
      (∀ c h', h.step c = .ok h' → h'.disposals ≠ h.disposals →
        ∃ obj taken o, c = .destroy obj taken ∧ h.objects obj = some o ∧ 0 < o.socket.fd) ∧
      -- of a `FileDescriptor` one close, of a `Connection` one cancel and then one close
      (∀ obj taken o h', h.step (.destroy obj taken) = .ok h' → h.objects obj = some o → 0 < o.socket.fd →
        ∃ s, h.table o.socket.fd = some s ∧ h'.disposals = h.disposals ++ match o with
          | .descriptor d => [.closeByDescriptor obj d.fd (some s)]
          | .connection c => [.cancel obj c.socket.fd (some s), .closeByConnection obj c.socket.fd (some s)]) ∧
      -- the loop's `cancel` is called by the latter, and by nothing else
      (∀ obj taken c h', h.step (.destroy obj taken) = .ok h' → h.objects obj = some (.connection c) →
        0 < c.socket.fd → h'.loop = h.loop.cancel c.socket.fd taken) ∧
      (∀ c h', h.step c = .ok h' →
        (∀ obj taken k, c = .destroy obj taken → h.objects obj = some (.connection k) → k.socket.fd ≤ 0) →
        h'.loop = h.loop) ∧
      -- and never any other call for the same descriptor
      ∀ s, h.trace s = [] ∨ ∃ obj fd, 0 < fd ∧
        (h.trace s = [.closeByDescriptor obj fd (some s)] ∨
          h.trace s = [.cancel obj fd (some s), .closeByConnection obj fd (some s)]) := by
  have hh := reach_holding hr
  refine ⟨?_, ?_, ?_, ?_, ?_, fun c h' hs hc => effect_loop (step_effect hs) hc, hh.once⟩
  · intro i j o o' hi hj h0 he
    exact hh.unique hi hj h0 he
  · intro i o hi h0
    obtain ⟨s, hs⟩ := hh.held i o hi h0
    have hown : h.own i = some s := by simp [own, hi, hs]
    exact ⟨s, hs, hh.trace_nil (hh.owners.alive i s hown)⟩
  · intro c h' hs hne
    rcases effect_disposals (step_effect hs) with hd | ⟨obj, taken, o, rfl, ho, hd⟩
    · exact absurd hd hne
    · rcases disposals_cases o obj (h.table o.socket.fd) with ⟨-, he⟩ | ⟨hv, -⟩
      · rw [he, List.append_nil] at hd
        exact absurd hd hne
      · exact ⟨obj, taken, o, rfl, ho, hv⟩
  · intro obj taken o h' hs ho hv
    obtain ⟨s, hs'⟩ := hh.held obj o ho (Int.le_of_lt hv)
    refine ⟨s, hs', ?_⟩
    simp only [step, ho, Except.ok.injEq] at hs
    subst hs
    rw [destroyHandle_eq]
    dsimp only
    rw [hs']
    rcases disposals_cases o obj (some s) with ⟨hv', -⟩ | ⟨-, ⟨d, rfl, he⟩ | ⟨c, rfl, he⟩⟩
    · exact absurd hv hv'
    · rw [he]
      rfl
    · rw [he]
      rfl
  · intro obj taken c h' hs ho hv
    simp only [step, ho, Except.ok.injEq] at hs
    subst hs
    rw [destroyHandle_eq]
    exact if_pos hv

/-- A connection is assigned over another one, whose descriptor the moved-from
object closes; then its number is handed out again. -/
theorem descriptors_closed_once_assigned :
    ∃ h, Run step anyAction (new 4 0) h ∧
      h.disposals = [.cancel 3 5 (some 0), .closeByConnection 3 5 (some 0)] ∧
      h.loop.ring.unsubmitted.map (·.prep) = [.cancelFd 5] ∧ h.table 5 = some 2 ∧
      ∀ s, h.trace s = [] ∨ ∃ obj fd, 0 < fd ∧
        (h.trace s = [.closeByDescriptor obj fd (some s)] ∨
          h.trace s = [.cancel obj fd (some s), .closeByConnection obj fd (some s)]) := by
  obtain ⟨h, hr, hp⟩ := exists_run_any step (new 4 0)
    [.newDescriptor 0 (some 5), .newConnection 1 0, .newDescriptor 2 (some 6), .newConnection 3 2, .moveAssign 1 1,
      .moveAssign 1 3, .destroy 0 0, .destroy 3 0, .newDescriptor 4 (some 5)]
    (fun h => h.disposals == [.cancel 3 5 (some 0), .closeByConnection 3 5 (some 0)] &&
      h.loop.ring.unsubmitted.map (·.prep) == [.cancelFd 5] && h.table 5 == some 2)
    (by decide +kernel)
  simp only [Bool.and_eq_true, beq_iff_eq] at hp
  obtain ⟨⟨hdis, hcancel⟩, htable⟩ := hp
  exact ⟨h, hr, hdis, hcancel, htable, (descriptors_closed_once hr).2.2.2.2.2.2⟩

end Handles

end RingNet
