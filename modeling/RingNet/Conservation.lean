import RingNet.Ledger
/-!
# Requests and entries are not lost

Two places where `submit` can drop something. `preparePendingRequests` does
not look at the status `prepare` returns and clears the waiting lists, so a
request that gets no entry is gone; `DrainFits` is when this does not happen.
And `submit` returns early when no request was pending, also if entries are
still waiting in the ring (`Flushes`).
-/

namespace RingNet

open Lib IoUring

namespace EventLoop

/-! ## Requests -/

/-- A submission finds an entry for each pending request. -/
def DrainFits (l : EventLoop) : Action → Prop
  | .submit _ reply => everyRequestFits l.ring.ringEntries l.ring.room l.pending.length reply.takes = true
  | _ => True

instance (l : EventLoop) : (a : Action) → Decidable (DrainFits l a)
  | .submit _ reply =>
    inferInstanceAs (Decidable (everyRequestFits l.ring.ringEntries l.ring.room l.pending.length reply.takes = true))
  | .add .. | .cancel .. | .begin | .next | .callbackReturn | .checkStatus | .post .. =>
    inferInstanceAs (Decidable True)

/-- Every accepted request is in exactly one place. -/
def Conserved (l : EventLoop) : Prop := ∀ id, l.places id = if id < l.accepted.length then 1 else 0

theorem conserved_step {l l' : EventLoop} {a : Action} (h : Conserved l) (hc : DrainFits l a) (he : Effect l a l') :
    Conserved l' := by
  intro id
  have hid := h id
  have hp := places_step he id
  have ha := accepted_step he
  cases a with
  | add r s addr =>
    dsimp only at hp ha
    rw [ha, hp, hid, List.length_append, List.length_singleton]
    split <;> split <;> split <;> omega
  -- a drain keeps every request exactly when all of them fit
  | submit timeout reply => dsimp only at hp ha; rw [ha, hp.2 hc, hid]
  | _ => dsimp only at hp ha; rw [ha, hp, hid]

theorem conserved_new (n : Nat) (st : Int) : Conserved (new n st) := by
  intro id
  simp [places]

theorem conserved_run {n : Nat} {st : Int} {l : EventLoop} (h : Run step DrainFits (new n st) l) : Conserved l :=
  Run.inv Conserved (conserved_new n st) (fun _ _ _ hi hc hs => conserved_step hi hc (step_effect hs)) h

/-- This call of `submit` enters the kernel if there is anything to submit, and
leaves nothing behind if the kernel takes all it is offered. -/
def Flushes (l : EventLoop) (timeout : Int) (reply : SubmitReply) : Prop :=
  ∀ st q, l.submissionQueue.submit timeout reply = .ok (st, q) →
    (q.ring.enters = l.ring.enters → l.pending = [] ∧ l.ring.unsubmitted = []) ∧
    (l.ring.ringEntries ≤ reply.taken → q.ring.unsubmitted = [])

/-- With nothing pending, `submit` does nothing. -/
theorem submit_of_idle {q : SubmissionQueue} (h : q.pendingRequests.toList = []) (timeout : Int) (reply : SubmitReply) :
    q.submit timeout reply = .ok (SubmitStatus.NOT_READY, { q with pendingRequests := {} }) := by
  simp [SubmissionQueue.submit, SubmissionQueue.preparePendingRequests, h, SubmissionQueue.prepareEach]

/-- With something pending, it enters the kernel with all that is prepared. -/
theorem submit_enters {q q' : SubmissionQueue} {timeout : Int} {reply : SubmitReply} {st : SubmitStatus}
    (h : q.pendingRequests.toList ≠ []) (hs : q.submit timeout reply = .ok (st, q')) :
    q.ring.enters < q'.ring.enters ∧ (q.ring.ringEntries ≤ reply.taken → q'.ring.unsubmitted = []) := by
  obtain ⟨n, q₁, hp, hq⟩ := SubmissionQueue.submit_spec hs
  obtain ⟨hn, -, got, -, -, hm, -⟩ := SubmissionQueue.preparePendingRequests_spec hp
  rcases hq with ⟨h0, -⟩ | ⟨-, rfl⟩
  · exact absurd (List.length_eq_zero_iff.1 (hn.symm.trans h0)) h
  · refine ⟨Nat.lt_succ_of_le hm.enters, fun ht => ?_⟩
    have hle := q₁.ring.unsubmitted_le
    have hr := hm.ringEntries
    rw [IoUring.submit_unsubmitted]
    exact List.drop_eq_nil_of_le (by omega)

/-- The early return leaves the ring as it was. -/
theorem not_flushes {l : EventLoop} (hp : l.pending = []) (hu : l.ring.unsubmitted ≠ []) (timeout : Int)
    (reply : SubmitReply) : ¬ Flushes l timeout reply := by
  intro h
  exact hu ((h _ _ (submit_of_idle hp timeout reply)).1 rfl).2

/-- A call of `submit` meets this exactly when a request is pending or no
entry is waiting in the ring. -/
theorem submit_flushes_iff (l : EventLoop) (timeout : Int) (reply : SubmitReply) :
    Flushes l timeout reply ↔ l.pending ≠ [] ∨ l.ring.unsubmitted = [] := by
  constructor
  · intro h
    by_cases hp : l.pending = []
    · right
      by_contra hu
      exact not_flushes hp hu timeout reply h
    · exact .inl hp
  · intro h st q hs
    by_cases hp : l.pending = []
    · have hu : l.ring.unsubmitted = [] := h.resolve_left (absurd hp)
      rw [submit_of_idle hp] at hs
      cases hs
      exact ⟨fun _ => ⟨hp, hu⟩, fun _ => hu⟩
    · obtain ⟨he, hu⟩ := submit_enters hp hs
      exact ⟨fun heq => absurd heq (Nat.ne_of_gt he), hu⟩

/-- A cancel on an idle loop stays in the ring. -/
theorem cancel_not_flushed : ∃ l, Reachable 1 0 l ∧ ¬ Flushes l 100 { taken := 1, ret := 1 } := by
  obtain ⟨l, hr, hp⟩ := exists_run_any step (new 1 0) [.cancel 5 0]
    (fun l => l.pending == [] && l.ring.unsubmitted != []) (by decide +kernel)
  simp only [Bool.and_eq_true, beq_iff_eq, bne_iff_ne, ne_eq] at hp
  exact ⟨l, hr, not_flushes hp.1 hp.2 100 _⟩

end EventLoop

end RingNet
