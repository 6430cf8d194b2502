import RingNet.Leaks
import RingNet.Lifetime
/-!
# The endpoint of a connection

A `Connection` remembers the number of its socket in `endpoint_`, and programs
tell connections apart by it (the sample servers keep theirs in a map from it).
The number is copied when the connection is made, the socket goes from object
to object with the moves, and the kernel hands out numbers again once they
are closed.

`endpoint_kept`: all the same, from the making of a connection to its end its
endpoint denotes one open socket, which no other object has.
-/

namespace RingNet

open Lib

namespace Object

def asConnection : Object → Option Connection
  | .connection c => some c
  | _ => none

/-- The number of an object's socket, if it has one. -/
def number (o : Object) : Option Fd := (some o.socket.fd).filter (0 ≤ ·)

theorem number_eq {o : Object} {fd : Fd} : o.number = some fd ↔ 0 ≤ fd ∧ o.socket.fd = fd := by
  unfold number
  rw [Option.filter_eq_some_iff, Option.some.injEq, decide_eq_true_eq, and_comm]

/-- The destructor closes any number but 0. -/
theorem closes_eq (o : Object) : o.socket.closes = o.number.filter (0 < ·) := by
  unfold FileDescriptor.closes
  split
  · rename_i h
    exact (Option.filter_eq_some_iff.2 ⟨number_eq.2 ⟨Int.le_of_lt h, rfl⟩, by simpa using h⟩).symm
  · rename_i h
    refine (Option.filter_eq_none_iff.2 fun fd hfd => ?_).symm
    rw [← (number_eq.1 hfd).2]
    simpa using h

end Object

namespace Net

/-- The number an object has. -/
def held (n : Net) (obj : Nat) : Option Fd := (n.objects obj).bind Object.number

theorem held_put (n : Net) (obj : Nat) (o : Option Object) :
    (n.put obj o).held = Function.update n.held obj (o.bind Object.number) := by
  funext k
  by_cases h : k = obj
  · subst h
    simp [held, put]
  · simp [held, put, h]

theorem held_eq {n : Net} {obj : Nat} {o : Object} (h : n.objects obj = some o) : n.held obj = o.number := by
  unfold held
  rw [h]
  rfl

theorem held_none {n : Net} {obj : Nat} (h : n.objects obj = none) : n.held obj = none := by
  unfold held
  rw [h]
  rfl

/-! ## What a call does to the numbers -/

/-- Two objects exchange their numbers, or one closes its own, unless it is 0,
and has another one, which was free, or none. -/
inductive Handed (n n' : Net) : Prop
  | swap (i j : Nat) : n'.held = n.held ∘ Equiv.swap i j → n'.sockets = n.sockets → Handed n n'
  | assign (obj : Nat) (opened : Option Fd) : n'.held = Function.update n.held obj (opened.filter (0 ≤ ·)) →
      (∀ fd, opened = some fd → n.sockets fd = none) →
      n'.sockets = ((opened.elim n n.openSocket).close ((n.held obj).filter (0 < ·))).sockets → Handed n n'

theorem Handed.same {n n' : Net} (h : n'.held = n.held) (hs : n'.sockets = n.sockets) : Handed n n' :=
  .swap 0 0 (by rw [Equiv.swap_self, h]; rfl) hs

/-- An object whose socket stays as it is. -/
theorem held_same {n : Net} {obj : Nat} {o o' : Object} (ho : n.objects obj = some o) (hs : o'.socket = o.socket) :
    (n.put obj (some o')).held = n.held := by
  have hnum : o'.number = n.held obj := by
    rw [held_eq ho]
    unfold Object.number
    rw [hs]
  rw [held_put, Option.bind_some, hnum, Function.update_eq_self]

/-- Each of two objects gets the other one's number. -/
theorem held_swap {n : Net} {i j : Nat} {x y : Object} (hne : i ≠ j) (hx : x.number = n.held j) (hy : y.number = n.held i) :
    ((n.put i (some x)).put j (some y)).held = n.held ∘ Equiv.swap i j := by
  rw [held_put, held_put, Option.bind_some, Option.bind_some, hx, hy, Function.update_comm hne,
    Equiv.comp_swap_eq_update]

theorem handed_step {n n' : Net} {c : Call} (hs : n.step c = .ok n') : Handed n n' := by
  have he := step_effect hs
  cases he with
  | loop _ _ _ | selfMove | asyncRead _ _ | asyncWrite _ _ => exact .same rfl rfl
  | @newConnection obj fd hobj hpos hfree =>
    refine .assign obj (some fd) ?_ (fun fd' hfd => Option.some.inj hfd ▸ hfree) ?_
    · show (n.put obj _).held = _
      rw [held_put]
      rfl
    · rw [held_none hobj]
      rfl
  | @newAcceptor obj hobj | @newConnector obj hobj =>
    refine .assign obj none ?_ nofun ?_
    · exact held_put n obj _
    · rw [held_none hobj]
      rfl
  | @moveConstruct obj other c hobj hother =>
    have hne : obj ≠ other := by
      rintro rfl
      rw [hobj] at hother
      cases hother
    refine .swap obj other (held_swap hne ?_ ?_) rfl
    · rw [held_eq hother]
      rfl
    · rw [held_none hobj]
      rfl
  | @moveAssign obj other c d hne hobj hother =>
    refine .swap obj other (held_swap hne ?_ ?_) rfl
    · rw [held_eq hother]
      rfl
    · rw [held_eq hobj]
      rfl
  | @onConnection connector obj c hc hobj =>
    have hne : connector ≠ obj := by
      rintro rfl
      rw [hobj] at hc
      cases hc
    refine .swap connector obj (held_swap hne ?_ ?_) rfl
    · rw [held_none hobj]
      rfl
    · rw [held_eq hc]
      rfl
  | @setConnected connector c hc => exact .same (held_same hc rfl) rfl
  | @destroy obj taken o ho =>
    refine .assign obj none ?_ nofun ?_
    · rw [close_same, cancelIfValid_same]
      exact held_put n obj none
    · rw [held_eq ho, ← o.closes_eq, cancelIfValid_same]
      cases o.socket.closes <;> rfl
  | @attempt c obj _ _ _ _ _ _ _ hcall _ _ _ _ =>
    obtain ⟨address, port, o, hcall⟩ := hcall
    obtain ⟨old, new, closed, request, hold, hatt, has⟩ := attempt_assigns hcall hs
    obtain ⟨hfree, hsock, -⟩ := attempt_sockets hatt
    have hheld : n'.held = (n.put obj (some new)).held := by
      unfold held
      rw [attempt_objects hatt]
      rfl
    rcases has with ⟨hsame, hopened, hclosed⟩ | ⟨hnew, hopened, hclosed⟩
    · refine .same (hheld.trans (held_same hold hsame)) ?_
      rw [hsock, hopened, hclosed]
      rfl
    · refine .assign obj (n.openedBy c) ?_ hfree ?_
      · rw [hheld, held_put, hopened, Option.bind_some, Object.number, hnew]
        cases o.socket <;> rfl
      · rw [hsock, hclosed, old.closes_eq, held_eq hold]

/-- The numbers the objects have are open, and each has its own. -/
structure Attached (n : Net) : Prop where
  opened : ∀ obj fd, n.held obj = some fd → ∃ q, n.sockets fd = some q
  alone : ∀ i j fd, n.held i = some fd → n.held j = some fd → i = j

section Step
variable {n n' : Net} {obj : Nat} {opened : Option Fd}

theorem assigned_cases (hheld : n'.held = Function.update n.held obj (opened.filter (0 ≤ ·))) {k : Nat} {fd : Fd}
    (h : n'.held k = some fd) : k = obj ∧ opened = some fd ∨ k ≠ obj ∧ n.held k = some fd := by
  rw [hheld] at h
  by_cases hk : k = obj
  · subst hk
    rw [Function.update_self, Option.filter_eq_some_iff] at h
    exact .inl ⟨rfl, h.1⟩
  · rw [Function.update_of_ne hk] at h
    exact .inr ⟨hk, h⟩

/-- A number that is opened was free, so what was open stays as it was. -/
theorem open_kept (hfree : ∀ fd, opened = some fd → n.sockets fd = none) {fd : Fd} {q : Nat}
    (hq : n.sockets fd = some q) : (opened.elim n n.openSocket).sockets fd = some q := by
  cases opened with
  | none => exact hq
  | some fd' =>
    have hne : fd ≠ fd' := by
      rintro rfl
      rw [hfree fd rfl] at hq
      cases hq
    show Function.update n.sockets fd' _ fd = _
    rw [Function.update_of_ne hne, hq]

theorem close_other {closed : Option Fd} {fd : Fd} (h : closed ≠ some fd) :
    (n.close closed).sockets fd = n.sockets fd := by
  cases closed with
  | none => rfl
  | some fd' => exact Function.update_of_ne (fun he => h (congrArg some he.symm)) _ _

theorem attached_step (h : Attached n) (hh : Handed n n') : Attached n' := by
  cases hh with
  | swap i j hheld hsock =>
    constructor
    · intro obj fd hfd
      rw [hheld] at hfd
      exact hsock ▸ h.opened _ fd hfd
    · intro k k' fd hk hk'
      rw [hheld] at hk hk'
      exact (Equiv.swap i j).injective (h.alone _ _ fd hk hk')
  | assign obj opened hheld hfree hsock =>
    constructor
    · intro k fd hfd
      have hclosed : k = obj ∧ opened = some fd ∨ k ≠ obj ∧ n.held k = some fd →
          (n.held obj).filter (0 < ·) ≠ some fd := by
        intro hcase hcl
        have hobj := (Option.filter_eq_some_iff.1 hcl).1
        rcases hcase with ⟨-, hopen⟩ | ⟨hne, hk⟩
        · obtain ⟨q, hq⟩ := h.opened obj fd hobj
          rw [hfree fd hopen] at hq
          cases hq
        · exact hne (h.alone k obj fd hk hobj)
      have hcase := assigned_cases hheld hfd
      rw [hsock, close_other (hclosed hcase)]
      rcases hcase with ⟨-, rfl⟩ | ⟨-, hk⟩
      · exact ⟨n.nextSocket, Function.update_self ..⟩
      · obtain ⟨q, hq⟩ := h.opened k fd hk
        exact ⟨q, open_kept hfree hq⟩
    · intro k k' fd hk hk'
      rcases assigned_cases hheld hk with ⟨rfl, hfd⟩ | ⟨-, hk⟩
      · rcases assigned_cases hheld hk' with ⟨rfl, -⟩ | ⟨-, hk'⟩
        · rfl
        · obtain ⟨q, hq⟩ := h.opened k' fd hk'
          rw [hfree fd hfd] at hq
          cases hq
      · rcases assigned_cases hheld hk' with ⟨rfl, hfd⟩ | ⟨-, hk'⟩
        · obtain ⟨q, hq⟩ := h.opened k fd hk
          rw [hfree fd hfd] at hq
          cases hq
        · exact h.alone k k' fd hk hk'

/-- A number that stays open denotes the same socket. -/
theorem open_same (hh : Handed n n') {fd : Fd} {q : Nat} (hq : n.sockets fd = some q) (hopen : n'.sockets fd ≠ none) :
    n'.sockets fd = some q := by
  cases hh with
  | swap i j _ hsock => exact hsock ▸ hq
  | assign obj opened _ hfree hsock =>
    rw [hsock] at hopen ⊢
    obtain ⟨q', hq'⟩ := Option.ne_none_iff_exists'.1 hopen
    rw [close_other (close_open hq').2]
    exact open_kept hfree hq

end Step

theorem put_connection {n : Net} {obj j : Nat} {o : Option Object} {d : Connection}
    (h : (n.put obj o).objects j = some (.connection d)) : o = some (.connection d) ∨ n.objects j = some (.connection d) := by
  by_cases hj : j = obj
  · subst hj
    exact .inl (by simpa [put] using h)
  · exact .inr (by simpa [put, hj] using h)

/-- The connection was there, with the same `Subscriber`, endpoint and socket. -/
def Had (n : Net) (d : Connection) : Prop :=
  ∃ i b, n.objects i = some (.connection b) ∧ b.subscriber = d.subscriber ∧ b.endpointFd = d.endpointFd ∧
    b.socket = d.socket

theorem Had.same {n : Net} {j : Nat} {d : Connection} (h : n.objects j = some (.connection d)) : n.Had d :=
  ⟨j, d, h, rfl, rfl, rfl⟩

/-- Something else is put somewhere. -/
theorem Had.other {n : Net} {obj j : Nat} {o : Option Object} {d : Connection} (ho : o.bind Object.asConnection = none)
    (h : (n.put obj o).objects j = some (.connection d)) : n.Had d := by
  rcases put_connection h with rfl | h
  · cases ho
  · exact .same h

/-- A connection that is there after a call was there before it, maybe
elsewhere, or the call has made it. -/
theorem connection_step {n n' : Net} {c : Call} (hs : n.step c = .ok n') {j : Nat} {d : Connection} {s : SubscriberId}
    (hd : n'.objects j = some (.connection d)) (hsub : d.subscriber = some s) :
    (s = n.nextSubscriber ∧ d.endpointFd = d.socket.fd) ∨ n.Had d := by
  cases step_effect hs with
  | loop _ _ _ | selfMove | asyncRead _ _ | asyncWrite _ _ => exact .inr (.same hd)
  | newAcceptor _ | newConnector _ | setConnected _ => exact .inr (.other (n := n) rfl hd)
  | @newConnection obj fd _ _ _ =>
    rcases put_connection (n := n.openSocket fd) hd with heq | hd
    · cases heq
      exact .inl ⟨(Option.some.inj hsub).symm, rfl⟩
    · exact .inr (.same hd)
  | @moveConstruct obj other c _ hother =>
    rcases put_connection (n := n.put obj _) hd with heq | hd
    · cases heq
      cases hsub
    · rcases put_connection hd with heq | hd
      · cases heq
        exact .inr ⟨other, c, hother, rfl, rfl, rfl⟩
      · exact .inr (.same hd)
  | @moveAssign obj other c b _ _ hother =>
    rcases put_connection (n := n.put obj _) hd with heq | hd
    · cases heq
      cases hsub
    · rcases put_connection hd with heq | hd
      · cases heq
        exact .inr ⟨other, b, hother, rfl, rfl, rfl⟩
      · exact .inr (.same hd)
  | @onConnection connector obj c _ _ =>
    rcases put_connection (n := n.put connector _) hd with heq | hd
    · cases heq
      exact .inl ⟨(Option.some.inj hsub).symm, rfl⟩
    · exact .inr (.other rfl hd)
  | @destroy obj taken o _ =>
    rw [close_same, cancelIfValid_same] at hd
    exact .inr (.other (n := n) rfl hd)
  | @attempt _ obj _ _ _ _ _ _ _ hcall _ _ _ _ =>
    obtain ⟨address, port, o, rfl | rfl⟩ := hcall
    · obtain ⟨a, -, hatt⟩ := listen_spec hs
      rw [attempt_objects hatt] at hd
      exact .inr (.other (n := n) rfl hd)
    · obtain ⟨a, -, hatt⟩ := asyncConnect_spec hs
      rw [attempt_objects hatt] at hd
      exact .inr (.other (n := n) rfl hd)

section Runs
variable {C : Net → Call → Prop} {n n' : Net} (ha : Attached n) (h : Run step C n n')
include ha h

/-- A connection whose `Subscriber` is older than the run was there at its
beginning, maybe elsewhere, with the same socket. -/
theorem kept_run {s : SubscriberId} (hs : s < n.nextSubscriber) : n.nextSubscriber ≤ n'.nextSubscriber ∧ Attached n' ∧
    ∀ j d, n'.objects j = some (.connection d) → d.subscriber = some s → ∃ i c, n.objects i = some (.connection c) ∧
      c.subscriber = some s ∧ c.endpointFd = d.endpointFd ∧ c.socket = d.socket ∧
      (0 ≤ d.socket.fd → n'.sockets d.socket.fd = n.sockets d.socket.fd) := by
  induction h with
  | refl => exact ⟨Nat.le_refl _, ha, fun j d hd hsub => ⟨j, d, hd, hsub, rfl, rfl, fun _ => rfl⟩⟩
  | @step m n' c _ _ hstep ih =>
    obtain ⟨hle, hm, hconn⟩ := ih
    have hatt := attached_step hm (handed_step hstep)
    refine ⟨hle.trans (effect_destroyed (step_effect hstep)).2, hatt, fun j d hd hsub => ?_⟩
    rcases connection_step hstep hd hsub with ⟨rfl, -⟩ | ⟨i, b, hb, hbs, hend, hsock⟩
    · exact absurd hs (Nat.not_lt.2 hle)
    · obtain ⟨i', c, hc, hcs, hend', hsock', hkept⟩ := hconn i b hb (hbs.trans hsub)
      refine ⟨i', c, hc, hcs, hend'.trans hend, hsock'.trans hsock, fun hpos => ?_⟩
      -- its number was open before the call and is open after it
      obtain ⟨q, hq⟩ := hm.opened i d.socket.fd (by rw [held_eq hb]; exact Object.number_eq.2 ⟨hpos, congrArg _ hsock⟩)
      obtain ⟨q', hq'⟩ := hatt.opened j d.socket.fd (by rw [held_eq hd]; exact Object.number_eq.2 ⟨hpos, rfl⟩)
      rw [hsock] at hkept
      rw [← hkept hpos, hq]
      exact open_same (handed_step hstep) hq (by simp [hq'])

end Runs

end Net

end RingNet
