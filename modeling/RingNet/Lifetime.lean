import RingNet.Net
/-!
# Subscribers and the requests that name them

A request's header holds the address of a `Subscriber`, which belongs to a
`Connection`, an `Acceptor` or a `Connector` and goes with it. Nothing keeps
the object alive until the request completes: destructors queue a cancel and
return. `outlives` is what a program has to see to itself, and what it gets
for it is `Outlived`; otherwise completions are handed to objects that are gone.
-/

namespace RingNet

open Lib IoUring

namespace EventLoop

/-! ## What is outstanding -/

/-- The pointers that will be followed: of the requests that are pending,
prepared or in flight, each with its request, and of the completions that have
not been dispatched. -/
def outstanding (l : EventLoop) : List (Nat × Option Nat) :=
  l.pending.map (fun x => (x.ptr, some x.id)) ++
    (l.ring.unsubmitted ++ l.ring.inflight).map (fun e => (e.userData, e.requestId)) ++
    (l.ring.posted.drop l.dispatched).map (fun c => (c.userData, none))

/-- The request `id` is pending, prepared or in flight. -/
def active (l : EventLoop) (id : Nat) : Bool := l.outstanding.any (·.2 == some id)

/-- The block at `p` names the subscriber `s`. -/
def leadsTo (l : EventLoop) (p : Nat) (s : SubscriberId) : Bool :=
  l.pool.any fun b => b.addr == p && b.header.userData == some s

/-- The request `id` was added for the subscriber `s`. -/
def madeFor (l : EventLoop) (id : Nat) (s : SubscriberId) : Bool :=
  l.accepted[id]?.any fun a => a.subscriber == some s

/-- Something outstanding is the subscriber's. -/
def concerns (l : EventLoop) (s : SubscriberId) : Bool :=
  l.outstanding.any fun x => l.leadsTo x.1 s || x.2.any (l.madeFor · s)

theorem mem_outstanding {l : EventLoop} {x : Nat × Option Nat} : x ∈ l.outstanding ↔
    (∃ y ∈ l.pending, x = (y.ptr, some y.id)) ∨
      (∃ e, (e ∈ l.ring.unsubmitted ∨ e ∈ l.ring.inflight) ∧ x = (e.userData, e.requestId)) ∨
      ∃ c ∈ l.ring.posted.drop l.dispatched, x = (c.userData, none) := by
  simp only [outstanding, List.mem_append, List.mem_map, eq_comm (a := x), or_assoc]

theorem leadsTo_iff {l : EventLoop} {p : Nat} {s : SubscriberId} :
    l.leadsTo p s = true ↔ ∃ b ∈ l.pool, b.addr = p ∧ b.header.userData = some s := by
  simp [leadsTo]

theorem madeFor_iff {l : EventLoop} {id : Nat} {s : SubscriberId} :
    l.madeFor id s = true ↔ ∃ a, l.accepted[id]? = some a ∧ a.subscriber = some s := by
  unfold madeFor
  cases l.accepted[id]? <;> simp

end EventLoop

namespace Net

/-! ## Who owns which subscriber -/

/-- The `Subscriber` of an object, if there is such an object and it has one. -/
def subs (n : Net) (obj : Nat) : Option SubscriberId := (n.objects obj).bind Object.subscriber

theorem subs_put (n : Net) (obj : Nat) (o : Option Object) :
    (n.put obj o).subs = Function.update n.subs obj (o.bind Object.subscriber) := by
  funext j
  by_cases h : j = obj
  · subst h
    simp [subs, put]
  · simp [subs, put, h]

theorem subs_create (n : Net) (obj : Nat) (o : Object) :
    (n.create obj o).subs = Function.update n.subs obj o.subscriber := by
  show (n.put obj (some o)).subs = _
  rw [subs_put]
  rfl

/-- Replacing an object by one with the same subscriber changes nothing. -/
theorem subs_same {n : Net} {obj : Nat} {o o' : Object} (ho : n.objects obj = some o)
    (hs : o'.subscriber = o.subscriber) : (n.put obj (some o')).subs = n.subs := by
  rw [subs_put]
  have : n.subs obj = o'.subscriber := by simp [subs, ho, hs]
  rw [Option.bind_some, ← this, Function.update_eq_self]

/-- Every `Subscriber` has one owner until it is destroyed. -/
def Owning (n : Net) : Prop := Owners n.subs n.nextSubscriber n.destroyed

/-- `listen` and `asyncConnect` keep the owners. -/
theorem attempt_owners {n n' : Net} {obj : Nat} {o o' : Object} {opened closed : Option Fd} {request : Option Request}
    {addr : Nat} (ho : n.objects obj = some o) (hs : o'.subscriber = o.subscriber)
    (h : n.attempt obj o' opened closed request addr = .ok n') :
    n'.subs = n.subs ∧ n'.destroyed = n.destroyed ∧ n'.nextSubscriber = n.nextSubscriber := by
  have hput := subs_same ho hs
  obtain ⟨sockets, nextSocket, ⟨-, rfl⟩ | ⟨r, -, -, rfl⟩⟩ := attempt_cases h <;> exact ⟨hput, rfl, rfl⟩

theorem owning_step {n n' : Net} {c : Call} (h : Owning n) (he : Effect n c n') : Owning n' := by
  unfold Owning at h ⊢
  cases he with
  | loop _ _ _ => exact h
  | @newConnection obj fd hobj _ _ =>
    rw [subs_create]
    exact Owners.create h (by simp [subs, hobj])
  | @newAcceptor obj hobj =>
    rw [subs_create]
    exact Owners.create h (by simp [subs, hobj])
  | @newConnector obj hobj =>
    rw [subs_create]
    exact Owners.create h (by simp [subs, hobj])
  | @moveConstruct obj other c hobj hother =>
    have hne : obj ≠ other := by
      intro e
      rw [e, hother] at hobj
      cases hobj
    rw [subs_put, subs_put]
    have hm := Owners.move h hne
    have h1 : n.subs obj = none := by simp [subs, hobj]
    have h2 : n.subs other = c.subscriber := by simp [subs, hother]
    rw [h1, h2, Option.toList_none, List.append_nil] at hm
    exact hm
  | selfMove => exact h
  | @moveAssign obj other c d hne hobj hother =>
    have hm := Owners.move h hne
    have h1 : n.subs obj = c.subscriber := by simp [subs, hobj]
    have h2 : n.subs other = d.subscriber := by simp [subs, hother]
    rw [h1, h2] at hm
    show Owners ((n.put obj _).put other _).subs _ _
    rw [subs_put, subs_put]
    exact hm
  | @destroy obj taken o ho =>
    have hd := Owners.drop h obj
    have h1 : n.subs obj = o.subscriber := by simp [subs, ho]
    rw [h1] at hd
    rw [close_same, cancelIfValid_same]
    show Owners (n.put obj none).subs _ _
    rw [subs_put]
    exact hd
  | asyncRead _ _ | asyncWrite _ _ => exact h
  | attempt _ ho hs _ ha =>
    obtain ⟨h1, h2, h3⟩ := attempt_owners ho hs ha
    rw [h1, h2, h3]
    exact h
  | @onConnection connector obj c hc hobj =>
    rw [subs_create, subs_same hc]
    · exact Owners.create h (by simp [subs, hobj])
    · rfl
  | @setConnected connector c hc =>
    rw [subs_same hc]
    · exact h
    · rfl

theorem owning_new (k : Nat) (st : Int) : Owning (new k st) := Owners.empty

/-- The `Subscriber` a call destroys. -/
def killed (n : Net) : Call → Option SubscriberId
  | .destroy obj _ => n.subs obj
  | .moveAssign obj other => if obj = other then none else n.subs obj
  | _ => none

theorem effect_destroyed {n n' : Net} {c : Call} (he : Effect n c n') :
    n'.destroyed = n.destroyed ++ (n.killed c).toList ∧ n.nextSubscriber ≤ n'.nextSubscriber := by
  cases he with
  | @moveAssign obj other c d hne hobj _ => simp [killed, hne, subs, hobj, kill, put]
  | @destroy obj taken o ho =>
    rw [close_same, cancelIfValid_same]
    simp [killed, subs, ho, kill, put]
  | attempt hcall ho hs _ ha =>
    obtain ⟨-, h2, h3⟩ := attempt_owners ho hs ha
    have hk : n.killed c = none := by
      obtain ⟨a, p, t, rfl | rfl⟩ := hcall <;> rfl
    rw [h2, h3, hk]
    simp
  | _ => simp [killed, moveLoop, create, openSocket, put, added]

/-! ## The condition -/

structure Outlived (n : Net) : Prop where
  owning : Owning n
  made : ∀ a ∈ n.loop.accepted, ∀ s, a.subscriber = some s → s < n.nextSubscriber
  alive : ∀ s, n.loop.concerns s = true → s ∉ n.destroyed ∧ s < n.nextSubscriber
  named : ∀ x ∈ n.loop.outstanding, ∀ id, x.2 = some id →
    ∃ a s, n.loop.accepted[id]? = some a ∧ a.subscriber = some s

/-- A request is made for the subscriber of an object, and never forgotten. -/
theorem effect_accepted {n n' : Net} {c : Call} (he : Effect n c n') {a : Accepted} (ha : a ∈ n'.loop.accepted) :
    a ∈ n.loop.accepted ∨ ∃ obj o, requester c = some obj ∧ n.objects obj = some o ∧ o.subscriber = a.subscriber := by
  rcases effect_loop he with hl | ⟨act, hstep, -, hadd, -⟩
  · rw [hl] at ha
    exact .inl ha
  · have hacc := EventLoop.accepted_step (EventLoop.step_effect hstep)
    cases act with
    | add r s addr =>
      dsimp only at hacc
      rw [hacc, List.mem_append, List.mem_singleton] at ha
      rcases ha with ha | rfl
      · exact .inl ha
      · obtain ⟨obj, o, hreq, hobj, hos, -⟩ := hadd r s addr rfl
        exact .inr ⟨obj, o, hreq, hobj, hos⟩
    | _ => dsimp only at hacc; rw [hacc] at ha; exact .inl ha

/-- Requests name subscribers that were made. -/
theorem made_step {n n' : Net} {c : Call} (hown : Owning n)
    (h : ∀ a ∈ n.loop.accepted, ∀ s, a.subscriber = some s → s < n.nextSubscriber) (he : Effect n c n') :
    ∀ a ∈ n'.loop.accepted, ∀ s, a.subscriber = some s → s < n'.nextSubscriber := by
  intro a ha s hs
  have hnext := (effect_destroyed he).2
  rcases effect_accepted he ha with ha | ⟨obj, o, -, hobj, hos⟩
  · exact Nat.lt_of_lt_of_le (h a ha s hs) hnext
  · refine Nat.lt_of_lt_of_le (hown.made obj s ?_) hnext
    simp [subs, hobj, hos, hs]

/-- Whatever the program does, subscribers have one owner and requests name subscribers that were made. -/
theorem reach_made {C : Net → Call → Prop} {k : Nat} {st : Int} {n : Net} (h : Run step C (new k st) n) :
    Owning n ∧ ∀ a ∈ n.loop.accepted, ∀ s, a.subscriber = some s → s < n.nextSubscriber := by
  refine Run.inv (fun n => Owning n ∧ ∀ a ∈ n.loop.accepted, ∀ s, a.subscriber = some s → s < n.nextSubscriber)
    ⟨owning_new k st, nofun⟩ ?_ h
  rintro n c n' ⟨hown, hmade⟩ - hs
  exact ⟨owning_step hown (step_effect hs), made_step hown hmade (step_effect hs)⟩

/-- A subscriber that something outstanding concerns has its owner. -/
theorem Outlived.owner {n : Net} (h : Outlived n) {s : SubscriberId} (hs : n.loop.concerns s = true) :
    s ∉ n.destroyed ∧ ∃ obj o, n.objects obj = some o ∧ o.subscriber = some s := by
  obtain ⟨hd, hlt⟩ := h.alive s hs
  refine ⟨hd, ?_⟩
  rcases h.owning.held s hlt with hdead | ⟨obj, hobj⟩
  · exact absurd hdead hd
  · obtain ⟨o, ho, hos⟩ := Option.bind_eq_some_iff.1 hobj
    exact ⟨obj, o, ho, hos⟩

end Net

end RingNet
