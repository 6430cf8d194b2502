import RingNet.Order
import RingNet.Proactor
import RingNet.RunLoop
/-!
# Nothing gets stuck but what stays in the ring

Whether a loop can always get everything answered that it was asked for. The
loop thread's own steps and the kernel's lead from any state to one with
nothing left to do, unless entries are left in the ring and no request is
pending: `submit` then returns before it enters the kernel, so these entries
wait until the program adds something.
-/

namespace RingNet

open Lib IoUring

namespace EventLoop

/-- The loop thread's and the kernel's own steps; submissions find entries for
the pending requests. -/
def Own (l : EventLoop) : Action → Prop
  | .add .. | .cancel .. => False
  | a => DrainFits l a

theorem Own.served {l : EventLoop} {a : Action} (h : Own l a) : Served l a := by
  cases a <;> first | exact h.elim | exact ⟨trivial, h⟩

theorem run_own {n : Nat} {l l' : EventLoop} (h : Run step Served (new n 0) l) (h' : Run step Own l l') :
    Run step Served (new n 0) l' :=
  h.trans (h'.mono fun _ _ => Own.served)

/-- The requests are where they were, on their way to the kernel. -/
structure SameWork (l l' : EventLoop) : Prop where
  pending : l'.pending = l.pending
  unsubmitted : l'.ring.unsubmitted = l.ring.unsubmitted
  inflight : l'.ring.inflight = l.ring.inflight
  accepted : l'.accepted = l.accepted

theorem SameWork.trans {l l' l'' : EventLoop} (h : SameWork l l') (h' : SameWork l' l'') : SameWork l l'' :=
  ⟨h'.pending.trans h.pending, h'.unsubmitted.trans h.unsubmitted, h'.inflight.trans h.inflight,
    h'.accepted.trans h.accepted⟩

theorem inPass_sameWork {l l' : EventLoop} (he : Effect l (RunLoop.inPass l) l') : SameWork l l' := by
  rcases RunLoop.inPass_cases l with ⟨-, ha⟩ | ⟨_, _, -, ha⟩ | ⟨_, _, _, _, -, ha⟩ <;> rw [ha] at he
  · cases he
    exact ⟨rfl, rfl, rfl, rfl⟩
  · cases he <;> exact ⟨rfl, rfl, rfl, rfl⟩
  · cases he with
    | callbackReturn _ _ hq =>
      rw [SubmissionQueue.release_same hq]
      exact ⟨rfl, rfl, rfl, rfl⟩

/-! ## What is stuck -/

/-- Entries wait in the ring and no request is pending. -/
def Stranded (l : EventLoop) : Prop := l.pending = [] ∧ l.ring.unsubmitted ≠ []

theorem stranded_step {l l' : EventLoop} {a : Action} (h : Stranded l) (hc : Own l a) (he : Effect l a l') :
    Stranded l' := by
  obtain ⟨hp, hu⟩ := h
  cases he with
  | add _ | cancel => exact hc.elim
  | submit _ hs =>
    -- with nothing pending the kernel is not entered
    rw [submit_of_idle hp] at hs
    cases hs
    exact ⟨rfl, hu⟩
  | begin _ | finish _ _ | dispatch _ _ _ | post _ _ _ => exact ⟨hp, hu⟩
  | callbackReturn _ _ hq =>
    rw [SubmissionQueue.release_same hq]
    exact ⟨hp, hu⟩
  | checkStatus _ =>
    rw [l.checkStatus_same]
    exact ⟨hp, hu⟩

/-! ## The way to a quiet loop -/

section Ways
variable {n : Nat} {l : EventLoop} (h : Run step Served (new n 0) l)
include h

theorem served_subscribed : Run step Subscribed (new n 0) l := h.mono fun _ _ => And.left

/-- The iteration can be finished, and has then dispatched everything posted. -/
theorem finish_pass (hi : l.phase ≠ .idle) :
    ∃ l', Run step Own l l' ∧ l'.phase = .idle ∧ SameWork l l' ∧ l'.dispatched = l'.ring.posted.length := by
  induction hw : RunLoop.passWork l using Nat.strong_induction_on generalizing l with
  | _ w ih =>
    obtain ⟨l₁, hl₁⟩ := RunLoop.inPass_progress (served_subscribed h) hi
    have hp := reach_position h.any
    have he := step_effect hl₁
    have hown : Own l (RunLoop.inPass l) := by
      rcases RunLoop.inPass_cases l with ⟨-, ha⟩ | ⟨_, _, -, ha⟩ | ⟨_, _, _, _, -, ha⟩ <;> rw [ha] <;> trivial
    rcases RunLoop.inPass_work hp he with ⟨hph, -⟩ | ⟨hph, hlt⟩
    · refine ⟨l₁, Run.refl.step hown hl₁, hph, inPass_sameWork he, ?_⟩
      rcases RunLoop.inPass_cases l with ⟨hph', -⟩ | ⟨_, _, -, ha⟩ | ⟨_, _, _, _, -, ha⟩
      · exact absurd hph' hi
      · rw [ha] at hl₁
        exact (finish_all hp hl₁ hph).1
      · rw [ha] at he
        cases he
        cases hph
    · obtain ⟨l₂, hrun, hidle, hsame, hdis⟩ := ih _ (by omega) (h.step hown.served hl₁) hph rfl
      exact ⟨l₂, (Run.refl.step hown hl₁).trans hrun, hidle, (inPass_sameWork he).trans hsame, hdis⟩

/-- The kernel can complete everything it has. -/
theorem complete_all :
    ∃ l', Run step Own l l' ∧ l'.phase = l.phase ∧ l'.pending = l.pending ∧
      l'.ring.unsubmitted = l.ring.unsubmitted ∧ l'.ring.inflight = [] ∧ l'.accepted = l.accepted := by
  induction hw : l.ring.inflight generalizing l with
  | nil => exact ⟨l, .refl, rfl, rfl, rfl, hw, rfl⟩
  | cons e es ih =>
    -- ECANCELED, say
    have hpost : l.step (.post 0 (-125) 0) = .ok { l with
        submissionQueue := { l.submissionQueue with ring := l.ring.post 0 e (-125) 0 } } := by
      simp [step, EventLoop.post, hw, Cqe.hasMore, Cqe.hasBuffer, Cqe.bufferId]
    have hin : (l.ring.post 0 e (-125) 0).inflight = es := by
      simp [IoUring.post, hw, Cqe.hasMore]
    have hown : Own l (.post 0 (-125) 0) := trivial
    obtain ⟨l', hrun, hrest⟩ := ih (h.step hown.served hpost) hin
    exact ⟨l', (Run.refl.step hown hpost).trans hrun, hrest⟩

end Ways

/-- On a ring with a slot, a kernel that always makes room lets every request fit. -/
theorem everyRequestFits_replicate {ringEntries : Nat} (hn : 0 < ringEntries) (room count m : Nat) (hm : count ≤ m) :
    everyRequestFits ringEntries room count (List.replicate m ringEntries) = true := by
  induction count generalizing room m with
  | zero => cases room <;> rfl
  | succ count ih =>
    cases room with
    | succ room => exact ih room m (by omega)
    | zero =>
      obtain ⟨m, rfl⟩ : ∃ k, m = k + 1 := ⟨m - 1, by omega⟩
      simp only [everyRequestFits, List.replicate_succ, List.headD_cons, List.tail_cons, Nat.min_self, hn, decide_true,
        Bool.true_and]
      exact ih _ m (by omega)

section Flush
variable {n : Nat} {l : EventLoop} (h : Run step Served (new n 0) l)
include h

/-- An idle loop with nothing stranded can hand everything it has to the kernel. -/
theorem flush (hn : 0 < n) (hi : l.phase = .idle) (hs : l.pending ≠ [] ∨ l.ring.unsubmitted = []) :
    ∃ l', Run step Own l l' ∧ l'.phase = .idle ∧ l'.pending = [] ∧ l'.ring.unsubmitted = [] ∧
      l'.accepted = l.accepted := by
  by_cases hp : l.pending = []
  · exact ⟨l, .refl, hi, hp, hs.resolve_left (absurd hp), rfl⟩
  · -- the kernel takes all that is offered, each time
    let reply : SubmitReply := { takes := List.replicate l.pending.length n, taken := n }
    obtain ⟨l', -, -, hs', -⟩ :=
      submit_possible ((served_subscribed h).mono fun _ _ => Subscribed.notCancel) hi 100 reply
    have he := step_effect hs'
    have hacc := accepted_step he
    have hr := reach_ringEntries h.any
    have hown : Own l (.submit 100 reply) := by
      have hfit := everyRequestFits_replicate hn l.ring.room l.pending.length l.pending.length le_rfl
      rw [← hr] at hfit
      simpa only [Own, DrainFits, reply, hr] using hfit
    cases he with
    | submit _ hq =>
      obtain ⟨hq', -⟩ := SubmissionQueue.submit_moves hq
      refine ⟨_, Run.refl.step hown hs', hi, ?_, (submit_enters hp hq).2 hr.le, hacc⟩
      exact congrArg (·.pendingRequests.toList) hq'

/-- Unless something is stranded, everything can be got done. -/
theorem settle (hn : 0 < n) (hs : l.pending ≠ [] ∨ l.ring.unsubmitted = []) :
    ∃ l', Run step Own l l' ∧ Quiet l' ∧ l'.accepted = l.accepted := by
  obtain ⟨l₁, hr₁, hi₁, hw⟩ : ∃ l₁, Run step Own l l₁ ∧ l₁.phase = .idle ∧ SameWork l l₁ := by
    by_cases hi : l.phase = .idle
    · exact ⟨l, .refl, hi, rfl, rfl, rfl, rfl⟩
    · obtain ⟨l₁, hr, hi, hw, -⟩ := finish_pass h hi
      exact ⟨l₁, hr, hi, hw⟩
  rw [← hw.pending, ← hw.unsubmitted] at hs
  have h₁ := run_own h hr₁
  obtain ⟨l₂, hr₂, hi₂, hp₂, hu₂, ha₂⟩ := flush h₁ hn hi₁ hs
  have h₂ := run_own h₁ hr₂
  obtain ⟨l₃, hr₃, hi₃, hp₃, hu₃, hin₃, ha₃⟩ := complete_all h₂
  have h₃ := run_own h₂ hr₃
  -- one more iteration hands the completions over
  have hb : l₃.step .begin = .ok { l₃ with phase := .iterating l₃.ring.cqHead 0 } := by
    simp [step, hi₃.trans hi₂]
  have h₄ := h₃.step (Own.served (a := .begin) trivial) hb
  obtain ⟨l₅, hr₅, -, hw₅, hd₅⟩ := finish_pass h₄ (by simp)
  refine ⟨l₅, hr₁.trans (hr₂.trans (hr₃.trans ((Run.refl.step trivial hb).trans hr₅))),
    ⟨hw₅.pending.trans (hp₃.trans hp₂), hw₅.unsubmitted.trans (hu₃.trans hu₂), hw₅.inflight.trans hin₃, hd₅⟩, ?_⟩
  exact hw₅.accepted.trans (ha₃.trans (ha₂.trans hw.accepted))

end Flush

/-- From any state of a loop that lost no request, the loop thread and the
kernel alone can bring about that every accepted request has its last answer
and nothing is left to do, exactly if a request is pending or no entry is
left in the ring. -/
theorem can_answer_all_iff {n : Nat} {l : EventLoop} (hn : 0 < n) (h : Run step Served (new n 0) l) :
    (∃ l', Run step Own l l' ∧ Quiet l' ∧ ∀ id a, l.accepted[id]? = some a →
      ∃ r, ((l'.callsFor id).map (·.what)).getLast? = some (reply (a, r)) ∧ r.last = true) ↔
    l.pending ≠ [] ∨ l.ring.unsubmitted = [] := by
  constructor
  · rintro ⟨l', hr, hq, -⟩
    by_contra hs
    have hst : Stranded l' := by
      refine Run.inv Stranded (by simpa [Stranded] using hs) (fun _ _ _ hi hc hs => ?_) hr
      exact stranded_step hi hc (step_effect hs)
    exact hst.2 hq.unsubmitted
  · intro hs
    obtain ⟨l', hr, hq, hacc⟩ := settle h hn hs
    refine ⟨l', hr, hq, fun id a ha => ?_⟩
    rw [← hacc] at ha
    have h' := run_own h hr
    obtain ⟨earlier, r, heq, hl, -⟩ := quiet_answers h' hq (List.getElem?_eq_some_iff.1 ha).1
    refine ⟨r, ?_, hl⟩
    rw [callsFor_eq (served_subscribed h') ha, heq]
    simp

/-- An accept in the kernel and a write pending: both can be answered. And an
entry the kernel did not take is stranded. -/
theorem can_answer_all_iff_two :
    (∃ l, l.pending ≠ [] ∧ ∃ l', Run step Own l l' ∧ Quiet l') ∧
      ∃ l, l.accepted ≠ [] ∧ ¬ ∃ l', Run step Own l l' ∧ Quiet l' ∧ ∀ id a, l.accepted[id]? = some a →
        ∃ r, ((l'.callsFor id).map (·.what)).getLast? = some (reply (a, r)) ∧ r.last = true := by
  constructor
  · obtain ⟨l, hr, hp⟩ := exists_run step (fun l a => decide (Served l a)) (fun _ _ => of_decide_eq_true) (new 4 0)
      [.add (.accept 3) (some 7) 100, .submit 100 { taken := 1, ret := 1 },
        .add (.write 5 ⟨4096, 3⟩) (some 8) 200] (fun l => l.pending != []) (by decide +kernel)
    have hpen : l.pending ≠ [] := by simpa using hp
    obtain ⟨l', hr', hq, -⟩ := (can_answer_all_iff (by decide) hr).2 (.inl hpen)
    exact ⟨l, hpen, l', hr', hq⟩
  · obtain ⟨l, hr, hp⟩ := exists_run step (fun l a => decide (Served l a)) (fun _ _ => of_decide_eq_true) (new 4 0)
      [.add (.accept 3) (some 7) 100, .submit 100 { taken := 0, ret := 0 }]
      (fun l => l.pending == [] && l.ring.unsubmitted != [] && l.accepted != []) (by decide +kernel)
    simp only [Bool.and_eq_true, beq_iff_eq, bne_iff_ne, ne_eq] at hp
    refine ⟨l, hp.2, fun hex => ?_⟩
    rcases (can_answer_all_iff (by decide) hr).1 hex with hne | hu
    · exact hne hp.1.1
    · exact hp.1.2 hu

end EventLoop

end RingNet
