import Mathlib.Data.List.Forall2
import RingNet.Delivery
import RingNet.Net
/-!
# What a completed write is reported as

A write goes from `asyncWrite` through the pool and the ring to a completion
whose result is the number of bytes the kernel took. The event for it is made
of that result and of the request. `run` puts the result where the descriptor
belongs and hands over the whole span; the events of the reads beside it have
the request's descriptor and the first `res` bytes.
-/

namespace RingNet

open Lib

namespace EventLoop

/-! ## Completions and calls, one by one -/

/-- `v` is the call for a completion of a request's own entry. -/
def Replied (l : EventLoop) (c : Cqe) (v : Invoked) : Prop :=
  ∃ id a buffers, c.owner = some (.request id) ∧ l.accepted[id]? = some a ∧ v.what = (handlerFor buffers a c).1

theorem Replied.step {l l' : EventLoop} {x : Action} {c : Cqe} {v : Invoked} (h : Replied l c v) (he : Effect l x l') :
    Replied l' c v := by
  obtain ⟨id, a, buffers, ho, ha, hw⟩ := h
  exact ⟨id, a, buffers, ho, accepted_mono he ha, hw⟩

/-- The completions that have been dispatched. -/
def handled (l : EventLoop) : List Cqe := l.ring.posted.take l.dispatched

theorem handled_keep {l l' : EventLoop} {x : Action} (hp : Position l) (he : Effect l x l')
    (hd : l'.dispatched = l.dispatched) : l'.handled = l.handled := by
  have hle := dispatched_le hp
  have hpost := posted_step he
  unfold handled
  rw [hd]
  cases x with
  | post i res flags =>
    obtain ⟨e, -, hpost⟩ := hpost
    rw [hpost, List.take_append_of_le_length hle]
  | _ => dsimp only at hpost; rw [hpost]

theorem replied_step {l l' : EventLoop} {x : Action} (h : List.Forall₂ (Replied l) l.handled l.invocations)
    (hp : Position l) (ht : Traced l) (hi : Intact l) (h0 : l.submissionQueue.cancels = 0) (he : Effect l x l') :
    List.Forall₂ (Replied l') l'.handled l'.invocations := by
  have hold : List.Forall₂ (Replied l') l.handled l.invocations := h.imp fun _ _ hr => hr.step he
  rcases invocations_step hp he with ⟨hinv, hd⟩ | ⟨processed, c, d, rfl, -, hfd, hc, hdis, hd, hinv⟩
  · rw [hinv, handled_keep hp he hd]
    exact hold
  · -- the completion dispatched just now leads to its own request
    have hpost := posted_step he
    dsimp only at hpost
    have hhandled : l'.handled = l.handled ++ [c] := by
      unfold handled
      rw [hpost, hd, List.take_add_one, hc]
      rfl
    rw [hinv, hhandled]
    refine List.rel_append hold (.cons ?_ .nil)
    obtain ⟨id, a, ho, ha, hne, hfind⟩ := hi.block ht h0 (hfd ▸ hc)
    rw [dispatch_eq hne hfind, Except.ok.injEq] at hdis
    subst hdis
    exact ⟨id, a, l.bufferRing, ho, accepted_mono he ha, rfl⟩

theorem replied_run {n : Nat} {st : Int} {l : EventLoop} (h : Run step NotCancel (new n st) l) :
    List.Forall₂ (Replied l) l.handled l.invocations := by
  refine Run.inv_of (fun l => Run step NotCancel (new n st) l) (fun l => List.Forall₂ (Replied l) l.handled l.invocations)
    (fun _ hr => hr) .nil ?_ h
  intro s a s' hr hi _ hs
  exact replied_step hi (reach_position hr.any) (reach_traced hr.any)
    (intact_run (hr.mono fun _ _ => NotCancel.clean)) (cancels_zero hr) (step_effect hs)

/-! ## Bytes written and bytes reported -/

/-- The write on `fd` of the span `bytes`, made for `s`, has completed with `c`, the `i`-th completion dispatched. -/
structure WriteCompleted (l : EventLoop) (i : Nat) (c : Cqe) (fd : Fd) (bytes : Span) (s : SubscriberId) : Prop where
  dispatched : l.handled[i]? = some c
  request : ∃ id addr, c.owner = some (.request id) ∧ l.accepted[id]? = some ⟨.write fd bytes, some s, addr⟩

/-- The size a call reports as written on `fd`. -/
def reportedOn (fd : Fd) (v : Invoked) : Nat :=
  match v.what with
  | .subscriber _ (.write fd' bytes) => if fd' = fd then bytes.size else 0
  | _ => 0

/-- The bytes the kernel took on `fd`, by a completion. -/
def writtenOn (l : EventLoop) (fd : Fd) (c : Cqe) : Nat :=
  match c.owner with
  | some (.request id) =>
    match l.accepted[id]? with
    | some ⟨.write fd' _, _, _⟩ => if fd' = fd then c.res.toNat else 0
    | _ => 0
  | _ => 0

/-- The result of a completed write is the descriptor's number and the number of bytes asked for. -/
def NumberedWrites (l : EventLoop) : Prop :=
  ∀ i c fd bytes s, l.WriteCompleted i c fd bytes s → 0 ≤ c.res → c.res = fd ∧ c.res = bytes.size

/-- The call for a write that completed well. -/
theorem Replied.write {l : EventLoop} {c : Cqe} {v : Invoked} (h : Replied l c v) {id addr : Nat} {fd : Fd} {bytes : Span}
    {s : SubscriberId} (ho : c.owner = some (.request id))
    (ha : l.accepted[id]? = some ⟨.write fd bytes, some s, addr⟩) (hr : 0 ≤ c.res) :
    v.what = .subscriber s (.write c.res bytes) := by
  obtain ⟨id', a, buffers, ho', ha', hw⟩ := h
  rw [ho] at ho'
  cases ho'
  rw [ha] at ha'
  cases ha'
  rw [hw]
  simp [handlerFor, Int.not_lt.2 hr]

/-- The event is right for a result that is both the number and the size, and for no other. -/
theorem event_right_iff {r : Int} (hr : 0 ≤ r) (fd : Fd) (bytes : Span) :
    Event.write r bytes = .write fd (bytes.subspan r.toNat) ↔ r = fd ∧ r = bytes.size := by
  obtain ⟨data, size⟩ := bytes
  simp only [Span.subspan, Event.write.injEq, Span.mk.injEq, true_and]
  constructor
  · rintro ⟨h1, h2⟩
    exact ⟨h1, by omega⟩
  · rintro ⟨h1, h2⟩
    exact ⟨h1, by omega⟩

/-- A call reports on a descriptor what its completion wrote there. -/
theorem reported_eq {l : EventLoop} (hsub : ∀ a ∈ l.accepted, ∃ s, a.subscriber = some s) (hn : NumberedWrites l)
    {i : Nat} {c : Cqe} {v : Invoked} (hc : l.handled[i]? = some c) (h : Replied l c v) (fd : Fd) :
    reportedOn fd v = l.writtenOn fd c := by
  obtain ⟨id, a, buffers, ho, ha, hw⟩ := h
  obtain ⟨s, hs⟩ := hsub a (List.mem_of_getElem? ha)
  obtain ⟨request, subscriber, addr⟩ := a
  dsimp only at hs
  subst hs
  simp only [reportedOn, writtenOn, ho, ha, hw, handlerFor]
  by_cases hr : c.res < 0
  · rw [if_pos hr]
    cases request with
    | write fd' bytes => simp [Int.toNat_of_nonpos (Int.le_of_lt hr)]
    | _ => rfl
  · rw [if_neg hr]
    cases request with
    | write fd' bytes =>
      obtain ⟨hfd, hsize⟩ := hn i c fd' bytes s ⟨hc, id, addr, ho, ha⟩ (Int.not_lt.1 hr)
      simp only [hfd]
      split
      · omega
      · rfl
    | multiShotRead fd' group =>
      dsimp only
      cases buffers.get c <;> rfl
    | _ => rfl

theorem total_eq {l : EventLoop} (h : List.Forall₂ (Replied l) l.handled l.invocations)
    (hsub : ∀ a ∈ l.accepted, ∃ s, a.subscriber = some s) (hn : NumberedWrites l) (fd : Fd) :
    (l.invocations.map (reportedOn fd)).sum = (l.handled.map (l.writtenOn fd)).sum := by
  congr 1
  rw [List.forall₂_iff_get] at h
  refine List.ext_getElem (by simp [h.1]) fun i h₁ h₂ => ?_
  simp only [List.length_map] at h₁ h₂
  simp only [List.getElem_map]
  exact reported_eq hsub hn (List.getElem?_eq_getElem h₂) (h.2 i h₂ h₁) fd

end EventLoop

namespace Net

open EventLoop

/-- Connections are made and read from and written to, and none is moved or destroyed. -/
def Writing (_ : Net) : Call → Prop
  | .newConnection .. | .asyncRead .. | .asyncWrite .. | .loop _ => True
  | _ => False

instance (n : Net) : (c : Call) → Decidable (Writing n c)
  | .newConnection .. | .asyncRead .. | .asyncWrite .. | .loop _ => inferInstanceAs (Decidable True)
  | .newAcceptor _ | .newConnector _ | .moveConstruct .. | .moveAssign .. | .destroy .. | .listen ..
  | .asyncConnect .. | .onConnection .. | .setConnected _ => inferInstanceAs (Decidable False)

/-- Every object has its subscriber, and the loop's run is one without cancels. -/
theorem writing_run {k : Nat} {st : Int} {n : Net} (h : Run step Writing (new k st) n) :
    (∀ obj o, n.objects obj = some o → o.subscriber.isSome = true) ∧
      Run EventLoop.step Subscribed (.new k st) n.loop := by
  refine Run.inv (fun n => (∀ obj o, n.objects obj = some o → o.subscriber.isSome = true) ∧
    Run EventLoop.step Subscribed (.new k st) n.loop) ⟨by simp [new], .refl⟩ ?_ h
  rintro s c s' ⟨hobj, hrun⟩ hc hs
  have he := step_effect hs
  refine ⟨?_, ?_⟩
  · cases he with
    | @newConnection obj fd _ _ _ =>
      intro j o hj
      rcases update_some_cases hj with ⟨-, rfl⟩ | ⟨-, hj⟩
      · rfl
      · exact hobj j o hj
    | loop _ _ _ => exact hobj
    | asyncRead _ _ => exact hobj
    | asyncWrite _ _ => exact hobj
    | attempt hcall _ _ _ _ =>
      obtain ⟨a, p, t, rfl | rfl⟩ := hcall <;> exact hc.elim
    | newAcceptor _ | newConnector _ | moveConstruct _ _ | selfMove | moveAssign _ _ _ | destroy _ | onConnection _ _
    | setConnected _ => exact hc.elim
  · rcases effect_loop he with hl | ⟨a, hl, -, hadd, hcan⟩
    · rw [hl]
      exact hrun
    · refine hrun.step (a := a) ?_ hl
      cases a with
      | add r u addr =>
        obtain ⟨obj, o, -, ho, rfl, -⟩ := hadd r u addr rfl
        exact hobj obj o ho
      | cancel fd taken =>
        obtain ⟨obj, o, rfl, -⟩ := hcan fd taken rfl
        exact hc.elim
      | _ => trivial

/-- For every run of reads and writes: `asyncWrite` makes a request for the
connection's descriptor and the span it was given; the event delivered when it
has completed names that descriptor and the first bytes of that span exactly
if the kernel's result is the number of the descriptor and the whole size; and
if every write's is, the sizes reported on each descriptor add up to the bytes
written there. -/
theorem write_events_iff {k : Nat} {st : Int} {n : Net} (h : Run step Writing (new k st) n) :
    -- the request
    (∀ obj bytes addr n', n.step (.asyncWrite obj bytes addr) = .ok n' → ∃ c s, n.objects obj = some (.connection c) ∧
      c.subscriber = some s ∧ n'.loop.accepted = n.loop.accepted ++ [⟨.write c.socket.fd bytes, some s, addr⟩]) ∧
      -- its event
      (∀ i c fd bytes s, n.loop.WriteCompleted i c fd bytes s → 0 ≤ c.res → c.res ≤ bytes.size →
        ∃ v e, n.loop.invocations[i]? = some v ∧ v.what = .subscriber s e ∧
          (e = .write fd (bytes.subspan c.res.toNat) ↔ c.res = fd ∧ c.res = bytes.size)) ∧
      -- all events
      (n.loop.NumberedWrites → ∀ fd, (n.loop.invocations.map (reportedOn fd)).sum =
        (n.loop.handled.map (n.loop.writtenOn fd)).sum) := by
  obtain ⟨hobj, hrun⟩ := writing_run h
  have hreplied := replied_run (hrun.mono fun _ _ hs => hs.notCancel)
  refine ⟨?_, ?_, fun hn => total_eq hreplied (accepted_subscribed hrun) hn⟩
  · intro obj bytes addr n' hs
    have he := step_effect hs
    cases he with
    | @asyncWrite _ _ _ c hc hf =>
      obtain ⟨s, hsub⟩ := Option.isSome_iff_exists.1 (hobj obj (.connection c) hc)
      have hsub : c.subscriber = some s := hsub
      refine ⟨c, s, hc, hsub, ?_⟩
      rw [← hsub]
      rfl
    | attempt hcall _ _ _ _ => obtain ⟨a, p, t, hcall | hcall⟩ := hcall <;> cases hcall
  · intro i c fd bytes s hw hr _
    obtain ⟨id, addr, ho, ha⟩ := hw.request
    obtain ⟨hlen, hget⟩ := List.forall₂_iff_get.1 hreplied
    obtain ⟨hi, hci⟩ := List.getElem?_eq_some_iff.1 hw.dispatched
    have hv := hget i hi (hlen ▸ hi)
    have hv : Replied n.loop c n.loop.invocations[i] := hci ▸ hv
    exact ⟨n.loop.invocations[i], .write c.res bytes, List.getElem?_eq_getElem (hlen ▸ hi), hv.write ho ha hr,
      event_right_iff hr fd bytes⟩

/-- Five bytes on descriptor 5, all of them taken. -/
theorem write_events_iff_five :
    ∃ n, Run step Writing (new 4 0) n ∧ n.loop.invocations.map (·.what) = [.subscriber 0 (.write 5 ⟨4096, 5⟩)] ∧
      ∃ v e, n.loop.invocations[0]? = some v ∧ v.what = .subscriber 0 e ∧
        (e = .write 5 ((⟨4096, 5⟩ : Span).subspan 5) ↔ (5 : Int) = 5 ∧ (5 : Int) = (5 : Nat)) := by
  obtain ⟨n, hr, hp⟩ := exists_run step (fun n c => decide (Writing n c)) (fun _ _ => of_decide_eq_true) (new 4 0)
    [.newConnection 0 5, .asyncWrite 0 ⟨4096, 5⟩ 100, .loop (.submit 100 { taken := 1, ret := 1 }), .loop (.post 0 5 0),
      .loop .begin, .loop .next, .loop .callbackReturn]
    (fun n => n.loop.invocations.map (·.what) == [.subscriber 0 (.write 5 ⟨4096, 5⟩)] &&
      n.loop.handled == [⟨100, 5, 0, some (.request 0)⟩] &&
      n.loop.accepted == [⟨.write 5 ⟨4096, 5⟩, some 0, 100⟩]) (by decide +kernel)
  simp only [Bool.and_eq_true, beq_iff_eq] at hp
  obtain ⟨⟨hinv, hhandled⟩, hacc⟩ := hp
  have hw : n.loop.WriteCompleted 0 ⟨100, 5, 0, some (.request 0)⟩ 5 ⟨4096, 5⟩ 0 :=
    ⟨by rw [hhandled]; rfl, 0, 100, rfl, by rw [hacc]; rfl⟩
  exact ⟨n, hr, hinv, (write_events_iff hr).2.1 0 _ 5 ⟨4096, 5⟩ 0 hw (by decide) (by decide)⟩

/-- A short write of 10 of 64 bytes on descriptor 5 is reported as 64 bytes on descriptor 10. -/
theorem short_write_misreported :
    ∃ n, Run step Writing (new 4 0) n ∧ n.loop.WriteCompleted 0 ⟨100, 10, 0, some (.request 0)⟩ 5 ⟨4096, 64⟩ 0 ∧
      n.loop.invocations.map (·.what) = [.subscriber 0 (.write 10 ⟨4096, 64⟩)] ∧
      (n.loop.invocations.map (reportedOn 5)).sum ≠ (n.loop.handled.map (n.loop.writtenOn 5)).sum := by
  obtain ⟨n, hr, hp⟩ := exists_run step (fun n c => decide (Writing n c)) (fun _ _ => of_decide_eq_true) (new 4 0)
    [.newConnection 0 5, .asyncWrite 0 ⟨4096, 64⟩ 100, .loop (.submit 100 { taken := 1, ret := 1 }), .loop (.post 0 10 0),
      .loop .begin, .loop .next]
    (fun n => n.loop.invocations.map (·.what) == [.subscriber 0 (.write 10 ⟨4096, 64⟩)] &&
      n.loop.handled == [⟨100, 10, 0, some (.request 0)⟩] &&
      n.loop.accepted == [⟨.write 5 ⟨4096, 64⟩, some 0, 100⟩] &&
      (n.loop.invocations.map (reportedOn 5)).sum != (n.loop.handled.map (n.loop.writtenOn 5)).sum)
    (by decide +kernel)
  simp only [Bool.and_eq_true, beq_iff_eq, bne_iff_ne] at hp
  obtain ⟨⟨⟨hinv, hhandled⟩, hacc⟩, hsum⟩ := hp
  exact ⟨n, hr, ⟨by rw [hhandled]; rfl, 0, 100, rfl, by rw [hacc]; rfl⟩, hinv, hsum⟩

end Net

end RingNet
