import RingNet.Lib.Proactor
import RingNet.Conservation
import RingNet.Delivery
/-!
# What the loop is for

A program asks the loop for requests, the kernel does them in any order, and
the loop hands the results over: the loop is a proactor whose jobs are the
requests and whose reports are the completions (`asProactor`). Pool, waiting
lists, ring slots and buffer ids are all hidden behind that, down to the event
each subscriber is called with (`reply`).

So what every proactor keeps to is true of the calls that subscribers get:
`calls_ordered` is about the calls for one request, `requests_answered` about
a loop that has nothing left to do.
-/

namespace RingNet

open Lib IoUring

/-- The event a result of a request is handed over as. -/
def Request.event (r : Request) (res : Int) (flags : UInt32) : Event :=
  if res < 0 then .error (-res)
  else
    match r with
    | .accept _ => .accept res
    | .connect .. => .connect
    | .read fd buf => .read fd (buf.subspan res.toNat)
    -- the start of the buffer whose id is in the flags
    | .multiShotRead fd _ => .read fd ⟨1024 * (flags >>> IORING_CQE_BUFFER_SHIFT).toNat, res.toNat⟩
    | .write _ bytes => .write res bytes

/-- The request a completion is for. -/
def Cqe.requestId (c : Cqe) : Option Nat :=
  match c.owner with
  | some (.request id) => some id
  | _ => none

/-- A completion as a report, of a request wherever this is used. -/
def Cqe.report (c : Cqe) : Report (Int × UInt32) := ⟨c.requestId.getD 0, (c.res, c.flags), !c.hasMore⟩

theorem Cqe.report_of_owner {c : Cqe} {id : Nat} (h : c.owner = some (.request id)) :
    c.report = ⟨id, (c.res, c.flags), !c.hasMore⟩ := by
  simp [report, requestId, h]

namespace EventLoop

/-- The loop, seen from the program. -/
def asProactor (l : EventLoop) : Proactor Accepted (Int × UInt32) where
  jobs := l.accepted
  reports := l.ring.posted.map Cqe.report
  handed := l.dispatched

/-- Multi-shot requests are the jobs that repeat. -/
def repeats (a : Accepted) : Bool := a.request.op.multishot

/-- The call that hands a report over. -/
def reply (x : Accepted × Report (Int × UInt32)) : Invocation :=
  match x.1.subscriber with
  | some s => .subscriber s (x.1.request.event x.2.value.1 x.2.value.2)
  | none => .errorHandler (.text "Error: No subscriber")

/-- The call `v` hands the answer `x` over. -/
def Hands (v : Invoked) (x : Accepted × Report (Int × UInt32)) : Prop :=
  v.owner = some (.request x.2.job) ∧ v.what = reply x

/-- The calls made for completions of the request `id`, oldest first. -/
def callsFor (l : EventLoop) (id : Nat) : List Invoked := l.invocations.filter (·.owner == some (.request id))

/-! ## The loop's buffers -/

theorem buffers_getElem? {id : Nat} (h : id < 2048) : BUFFERS[id]? = some ⟨1024 * id, 1024⟩ := by
  simp [BUFFERS, h]

/-- The buffers stay those the loop was made with. -/
theorem buffers_step {l l' : EventLoop} {a : Action} (he : Effect l a l') :
    l'.bufferRing.buffers = l.bufferRing.buffers := by
  cases he with
  | @callbackReturn head processed c rb b q hph hb hq =>
    cases rb with
    | false => cases hb; rfl
    | true =>
      obtain ⟨buffer, r, -, -, rfl⟩ := BufferRing.release_eq_ok.1 hb
      rfl
  | @post i res flags e b hin hmore hbuf =>
    rcases hbuf with ⟨-, -, rfl⟩ | ⟨-, -, bid, hsel, -⟩
    · rfl
    · unfold BufferRing.select at hsel
      split at hsel
      · cases hsel
      · simp only [Option.map_eq_some_iff, Prod.mk.injEq] at hsel
        obtain ⟨x, -, -, rfl⟩ := hsel
        rfl
  | checkStatus _ => rw [l.checkStatus_same]
  | _ => rfl

theorem reach_buffers {n : Nat} {st : Int} {l : EventLoop} (h : Reachable n st l) : l.bufferRing.buffers = BUFFERS := by
  refine Run.inv (fun l => l.bufferRing.buffers = BUFFERS) ?_ (fun _ _ _ hi _ hs => (buffers_step (step_effect hs)).trans hi) h
  have hk : BUFFERS.length = 2 ^ 11 := buffers_length
  rw [new_bufferRing]
  by_cases hst : st = 0
  · rw [hst, BufferRing.setupBuffers_eq BUFFERS hk (by decide)]
  · rw [BufferRing.setupBuffers_failed BUFFERS hk (by decide) hst]

/-- The handler's call is the reply to the completion's report. -/
theorem handlerFor_reply {l : EventLoop} {st : Int} (hz : Sized st l) (hb : l.bufferRing.buffers = BUFFERS) {c : Cqe}
    (hc : c ∈ l.ring.posted) {a : Accepted} (hs : ∃ s, a.subscriber = some s) :
    (handlerFor l.bufferRing a c).1 = reply (a, c.report) := by
  obtain ⟨s, hs⟩ := hs
  have hval : c.report.value = (c.res, c.flags) := rfl
  unfold handlerFor reply Request.event
  simp only [hs, hval]
  by_cases hr : c.res < 0
  · simp only [if_pos hr]
  · simp only [if_neg hr]
    cases hreq : a.request with
    | multiShotRead fd group =>
      have hget : l.bufferRing.get c = some ⟨1024 * c.bufferId, 1024⟩ := by
        rw [BufferRing.get_eq, hb, buffers_getElem? (hz.ids c hc)]
      simp only [hget]
      rfl
    | _ => rfl

/-! ## The loop is a proactor -/

/-- Without cancels, an entry the kernel has is a request's, prepared from its own block. -/
theorem Intact.entry {l : EventLoop} (h : Intact l) (h0 : l.submissionQueue.cancels = 0) {i : Nat} {e : Sqe}
    (he : l.ring.inflight[i]? = some e) :
    ∃ id a, e.owner = some (.request id) ∧ l.accepted[id]? = some a ∧ e.prep = a.request.prep := by
  have hown := h.entries e (.inr (List.mem_of_getElem? he))
  rcases ho : e.owner with _ | id | i
  · rw [ho] at hown
    exact hown.elim
  · rw [ho] at hown
    obtain ⟨a, ha, -, hp⟩ := hown
    exact ⟨id, a, rfl, ha, hp⟩
  · rw [ho] at hown
    exact absurd h0 hown.2

/-- While the kernel has a request's entry, the request has not ended. -/
theorem Unique.not_ended {l : EventLoop} (h : Unique l) {e : Sqe} (he : e ∈ l.ring.inflight) {id : Nat}
    (ho : e.owner = some (.request id)) : ∀ c ∈ l.ring.posted, c.endsFor id = false := by
  intro c hc
  by_contra hne
  obtain ⟨k, hk⟩ := List.getElem?_of_mem hc
  exact (h.alone hk (by simpa using hne)).2.1 e (.inr he) ho

section Runs
variable {n : Nat} {l : EventLoop} (h : Run step Subscribed (new n 0) l)
include h

/-- Every completion is a request's. -/
theorem onlyRequests_run : ∀ c ∈ l.ring.posted, ∃ id, c.owner = some (.request id) := by
  refine Run.inv_of (fun l => Run step Subscribed (new n 0) l) (fun l => ∀ c ∈ l.ring.posted, ∃ id,
    c.owner = some (.request id)) (fun _ hr => hr) (by simp) ?_ h
  intro s a s' hr hi _ hs c hc
  have hp := posted_step (step_effect hs)
  cases a with
  | post i res flags =>
    obtain ⟨e, he, hp⟩ := hp
    rw [hp, List.mem_append, List.mem_singleton] at hc
    rcases hc with hc | rfl
    · exact hi c hc
    · obtain ⟨id, a, ho, -⟩ := (subscribed_intact hr).entry (subscribed_cancels hr) he
      exact ⟨id, ho⟩
  | _ => dsimp only at hp; exact hi c (hp ▸ hc)

/-- A request has ended when its last completion is posted. -/
theorem ended_iff (id : Nat) : l.asProactor.ended id = true ↔ ∃ c ∈ l.ring.posted, c.endsFor id = true := by
  simp only [Proactor.ended, asProactor, List.any_map, List.any_eq_true]
  refine exists_congr fun c => and_congr_right fun hc => ?_
  obtain ⟨id', ho⟩ := onlyRequests_run h c hc
  simp [Cqe.report_of_owner ho, Cqe.endsFor, ho]

/-- A completion is a report the proactor allows. -/
theorem post_report {l' : EventLoop} {i : Nat} {res : Int} {flags : UInt32} (he : Effect l (.post i res flags) l') :
    ∃ r, l.asProactor.step repeats (.report r) = .ok l'.asProactor := by
  cases he with
  | @post _ _ _ e b hin hmore _ =>
    obtain ⟨id, a, ho, ha, hprep⟩ := (subscribed_intact h).entry (subscribed_cancels h) hin
    have hrep := Cqe.report_of_owner (c := ⟨e.userData, res, flags, e.owner⟩) ho
    refine ⟨Cqe.report ⟨e.userData, res, flags, e.owner⟩, Proactor.report_ok.2 ⟨a, ?_, ?_, ?_, ?_⟩⟩
    · rw [hrep]
      exact ha
    · rw [hrep, Bool.eq_false_iff, Ne, ended_iff h]
      rintro ⟨c, hc, hce⟩
      rw [(reach_unique h.any).not_ended (List.mem_of_getElem? hin) ho c hc] at hce
      cases hce
    · -- an entry that goes on is a multi-shot request's
      rw [hrep]
      by_cases hm : Cqe.hasMore ⟨e.userData, res, flags, e.owner⟩ = true
      · have hmulti := hmore hm
        rw [hprep, Request.prep_multishot] at hmulti
        exact .inr hmulti
      · exact .inl (by simpa using hm)
    · simp only [asProactor, IoUring.post, List.map_append]
      rfl

/-- What a step of the loop is to the proactor. -/
theorem asProactor_step {l' : EventLoop} {a : Action} (he : Effect l a l') :
    match a with
    | .add r s addr => l.asProactor.step repeats (.ask ⟨stored r, s, addr⟩) = .ok l'.asProactor
    | .post .. => ∃ r, l.asProactor.step repeats (.report r) = .ok l'.asProactor
    | .next => l.asProactor.step repeats .hand = .ok l'.asProactor ∨
        l'.asProactor = l.asProactor ∧ l'.invocations = l.invocations
    | _ => l'.asProactor = l.asProactor := by
  have hacc := accepted_step he
  have hpost := posted_step he
  have hsame : l'.accepted = l.accepted → l'.ring.posted = l.ring.posted → l'.dispatched = l.dispatched →
      l'.asProactor = l.asProactor := by
    intro h1 h2 h3
    simp only [asProactor, h1, h2, h3]
  have hinv := invocations_step (reach_position h.any) he
  cases a with
  | post i res flags => exact post_report h he
  | next =>
    dsimp only at hacc hpost ⊢
    rcases hinv with ⟨hinv, hd⟩ | ⟨processed, c, d, -, -, -, hc, -, hd, -⟩
    · exact .inr ⟨hsame hacc hpost hd, hinv⟩
    · refine .inl (Proactor.hand_ok.2 ⟨?_, ?_⟩)
      · simpa only [asProactor, List.length_map] using (List.getElem?_eq_some_iff.1 hc).1
      · simp only [asProactor, hacc, hpost, hd]
  | add r s addr =>
    dsimp only at hacc hpost ⊢
    obtain ⟨-, hd⟩ : l'.invocations = l.invocations ∧ l'.dispatched = l.dispatched :=
      hinv.resolve_right (by rintro ⟨_, _, _, hx, -⟩; cases hx)
    simp only [Proactor.step, asProactor, hacc, hpost, hd]
  | cancel | submit | begin | callbackReturn | checkStatus =>
    dsimp only at hacc hpost ⊢
    obtain ⟨-, hd⟩ : l'.invocations = l.invocations ∧ l'.dispatched = l.dispatched :=
      hinv.resolve_right (by rintro ⟨_, _, _, hx, -⟩; cases hx)
    exact hsame hacc hpost hd

theorem asProactor_run : Run (Proactor.step repeats) anyAction {} l.asProactor := by
  refine Run.simulate asProactor ?_ h
  intro s a s' hr _ hs
  have hstep := asProactor_step hr (step_effect hs)
  cases a with
  | add r u addr => exact Run.refl.step trivial hstep
  | post i res flags =>
    obtain ⟨r, hr⟩ := hstep
    exact Run.refl.step trivial hr
  | next =>
    rcases hstep with hstep | ⟨hstep, -⟩
    · exact Run.refl.step trivial hstep
    · rw [hstep]
      exact .refl
  | _ =>
    dsimp only at hstep
    rw [hstep]
    exact .refl

/-! ## The calls -/

/-- The calls made are the replies to the answers, one for one. -/
theorem hands_run : List.Forall₂ Hands l.invocations l.asProactor.answers := by
  refine Run.inv_of (fun l => Run step Subscribed (new n 0) l) (fun l => List.Forall₂ Hands l.invocations l.asProactor.answers)
    (fun _ hr => hr) .nil ?_ h
  intro s a s' hr hi _ hs
  have he := step_effect hs
  have hlaw := Proactor.lawful_run (asProactor_run hr)
  have hpro := asProactor_step hr he
  rcases invocations_step (reach_position hr.any) he with ⟨hinv, hd⟩ | ⟨processed, c, d, rfl, -, hfd, hc, hdis, hd, hinv⟩
  · rw [hinv]
    suffices hsame : s'.asProactor.answers = s.asProactor.answers by rw [hsame]; exact hi
    cases a with
    | add r u addr => exact Proactor.answers_step hlaw hpro
    | post i res flags =>
      obtain ⟨r, hpro⟩ := hpro
      exact Proactor.answers_step hlaw hpro
    | next =>
      rcases hpro with hpro | ⟨hpro, -⟩
      · -- nothing is handed over without a call
        have := (Proactor.hand_ok.1 hpro).2
        have hh : s'.dispatched = s.dispatched + 1 := congrArg (·.handed) this
        omega
      · rw [hpro]
    | _ => dsimp only at hpro; rw [hpro]
  · -- the call just made, for the request whose block the completion leads to
    have hhand : s.asProactor.step repeats .hand = .ok s'.asProactor := by
      refine hpro.resolve_right fun hsame => ?_
      have := hinv.symm.trans hsame.2
      simp at this
    obtain ⟨r, j, hr', hj, hans⟩ := Proactor.answers_step hlaw hhand
    obtain ⟨id, a, ho, ha, hne, hfind⟩ := (subscribed_intact hr).block (reach_traced hr.any) (subscribed_cancels hr) (hfd ▸ hc)
    rw [dispatch_eq hne hfind, Except.ok.injEq] at hdis
    have hrc : r = c.report := by
      have : s.asProactor.reports[s.asProactor.handed]? = some c.report := by
        simp only [asProactor, List.getElem?_map, hc, Option.map_some]
      exact Option.some.inj (hr'.symm.trans this)
    subst hrc
    have hja : j = a := by
      rw [Cqe.report_of_owner ho] at hj
      exact Option.some.inj (hj.symm.trans ha)
    subst hja
    rw [hinv, hans]
    refine List.rel_append hi (.cons ⟨?_, ?_⟩ .nil)
    · rw [Cqe.report_of_owner ho]
      exact ho
    · rw [← hdis]
      exact handlerFor_reply (reach_sized hr.any) (reach_buffers hr.any) (List.mem_of_getElem? hc)
        (accepted_subscribed hr j (List.mem_of_getElem? ha))

/-- The `i`-th call is the reply to the `i`-th completion. -/
theorem called_with {i : Nat} {v : Invoked} (hv : l.invocations[i]? = some v) :
    ∃ c id a, i < l.dispatched ∧ l.ring.posted[i]? = some c ∧ c.owner = some (.request id) ∧
      l.accepted[id]? = some a ∧ v.what = reply (a, c.report) := by
  have hlaw := Proactor.lawful_run (asProactor_run h)
  obtain ⟨hlen, hget⟩ := List.forall₂_iff_get.1 (hands_run h)
  obtain ⟨hi, rfl⟩ := List.getElem?_eq_some_iff.1 hv
  have hx := hlen ▸ hi
  have hrep : (l.asProactor.answers.map (·.2))[i]? = some (l.asProactor.answers[i]).2 := by
    rw [List.getElem?_map, List.getElem?_eq_getElem hx]
    rfl
  rw [hlaw.answers_reports, List.getElem?_take] at hrep
  split at hrep
  · rename_i hlt
    simp only [asProactor, List.getElem?_map, Option.map_eq_some_iff] at hrep
    obtain ⟨c, hc, hcr⟩ := hrep
    obtain ⟨id, ho⟩ := onlyRequests_run h c (List.mem_of_getElem? hc)
    have hjob := Proactor.mem_answers (List.getElem_mem hx)
    have hrc : (l.asProactor.answers[i]).2 = c.report := hcr.symm
    rw [hrc, Cqe.report_of_owner ho] at hjob
    refine ⟨c, id, (l.asProactor.answers[i]).1, hlt, hc, ho, hjob, ?_⟩
    rw [← hrc]
    exact (hget i hi hx).2
  · cases hrep

/-- The calls for one request, oldest first, are the replies to the reports on it. -/
theorem callsFor_eq {id : Nat} {a : Accepted} (ha : l.accepted[id]? = some a) :
    (l.callsFor id).map (·.what) = (l.asProactor.answersOf id).map fun r => reply (a, r) := by
  have hfilter : List.Forall₂ Hands (l.callsFor id) (l.asProactor.answers.filter (·.2.job == id)) := by
    refine List.rel_filter ?_ (hands_run h)
    rintro v x ⟨ho, -⟩
    simp [ho]
  rw [Proactor.answers_filter (p := l.asProactor) ha, List.forall₂_map_right_iff] at hfilter
  rw [← List.forall₂_eq_eq_eq, List.forall₂_map_left_iff, List.forall₂_map_right_iff]
  exact hfilter.imp fun _ _ hr => hr.2

end Runs

/-- For every run without cancels in which each request has a subscriber: the
loop is a proactor that accepts, completes and hands over in any order, and
the calls made so far are the replies to the reports handed over, in order,
with nothing left out and nothing else called. -/
theorem refines_proactor {n : Nat} {l : EventLoop} (h : Run step Subscribed (new n 0) l) :
    Run (Proactor.step repeats) anyAction {} l.asProactor ∧
      l.invocations.map (·.what) = l.asProactor.answers.map reply := by
  refine ⟨asProactor_run h, ?_⟩
  rw [← List.forall₂_eq_eq_eq, List.forall₂_map_left_iff, List.forall₂_map_right_iff]
  exact (hands_run h).imp fun _ _ hr => hr.2

/-- A multi-shot read hands over a piece and then the end of its stream; a
write of another connection completes in between. -/
def twoStreams : List Action :=
  [.add (.multiShotRead 5 0) (some 7) 100, .add (.write 6 ⟨4096, 3⟩) (some 8) 200,
    .submit 100 { taken := 2, ret := 2 }, .post 0 10 3, .post 1 3 0, .post 0 0 0, .begin, .next, .callbackReturn, .next,
    .callbackReturn, .next, .callbackReturn, .next]

theorem refines_proactor_two :
    ∃ l, Run step Subscribed (new 4 0) l ∧ l.asProactor.answers.map reply =
      [.subscriber 7 (.read 5 ⟨0, 10⟩), .subscriber 8 (.write 3 ⟨4096, 3⟩), .subscriber 7 (.read 5 ⟨0, 0⟩)] := by
  obtain ⟨l, hr, hp⟩ := exists_run step (fun l a => decide (Subscribed l a)) (fun _ _ => of_decide_eq_true) (new 4 0)
    twoStreams (fun l => l.invocations.map (·.what) ==
      [.subscriber 7 (.read 5 ⟨0, 10⟩), .subscriber 8 (.write 3 ⟨4096, 3⟩), .subscriber 7 (.read 5 ⟨0, 0⟩)])
    (by decide +kernel)
  exact ⟨l, hr, (refines_proactor hr).2 ▸ beq_iff_eq.1 hp⟩

/-- The subscriber of a request is called with the results of this request
only, in the order the kernel reported them; no call comes after the one for
the last result, and there is at most one call for a single-shot request. -/
theorem calls_ordered {n : Nat} {l : EventLoop} (h : Run step Subscribed (new n 0) l) {id : Nat} {a : Accepted}
    (ha : l.accepted[id]? = some a) :
    (l.callsFor id).map (·.what) = (l.asProactor.answersOf id).map (fun r => reply (a, r)) ∧
      (l.asProactor.answersOf id).Pairwise (fun r _ => r.last = false) ∧
      (a.request.op.multishot = false → (l.callsFor id).length ≤ 1) := by
  have hlaw := Proactor.lawful_run (asProactor_run h)
  have heq := callsFor_eq h ha
  refine ⟨heq, hlaw.answersOf_ends id, fun hm => ?_⟩
  have hlen := congrArg List.length heq
  rw [List.length_map, List.length_map] at hlen
  rw [hlen]
  exact hlaw.answersOf_once ha hm

theorem calls_ordered_two :
    ∃ l, Run step Subscribed (new 4 0) l ∧ (l.callsFor 0).length = 2 ∧ (l.callsFor 1).length ≤ 1 := by
  obtain ⟨l, hr, hp⟩ := exists_run step (fun l a => decide (Subscribed l a)) (fun _ _ => of_decide_eq_true) (new 4 0)
    twoStreams (fun l => (l.callsFor 0).length == 2 &&
      l.accepted[1]? == some ⟨.write 6 ⟨4096, 3⟩, some 8, 200⟩) (by decide +kernel)
  simp only [Bool.and_eq_true, beq_iff_eq] at hp
  exact ⟨l, hr, hp.1, (calls_ordered hr hp.2).2.2 rfl⟩

/-! ## A loop with nothing left to do -/

/-- Nothing is pending, prepared, with the kernel, or waiting to be handed over. -/
structure Quiet (l : EventLoop) : Prop where
  pending : l.pending = []
  unsubmitted : l.ring.unsubmitted = []
  inflight : l.ring.inflight = []
  dispatched : l.dispatched = l.ring.posted.length

/-- Requests come with subscribers, nothing is cancelled, and every submission
finds entries for the pending requests. -/
def Served (l : EventLoop) (a : Action) : Prop := Subscribed l a ∧ DrainFits l a

instance (l : EventLoop) (a : Action) : Decidable (Served l a) := inferInstanceAs (Decidable (_ ∧ _))

/-- In a quiet loop every request has ended. -/
theorem Conserved.ended {l : EventLoop} (h : Conserved l) (hq : Quiet l) {id : Nat} (hid : id < l.accepted.length) :
    ∃ c ∈ l.ring.posted, c.endsFor id = true := by
  have hplace := h id
  simp only [places, hq.pending, hq.unsubmitted, hq.inflight, List.countP_nil, if_pos hid] at hplace
  exact List.countP_pos_iff.1 (by omega)

/-- In a quiet loop that lost no request, the last answer to a request is the last it gets. -/
theorem quiet_answers {n : Nat} {l : EventLoop} (h : Run step Served (new n 0) l) (hq : Quiet l) {id : Nat}
    (hid : id < l.accepted.length) :
    ∃ earlier r, l.asProactor.answersOf id = earlier ++ [r] ∧ r.last = true ∧ ∀ x ∈ earlier, x.last = false := by
  have hsub : Run step Subscribed (new n 0) l := h.mono fun _ _ => And.left
  have hcons : Conserved l := conserved_run (h.mono fun _ _ => And.right)
  have hend := (ended_iff hsub id).2 (hcons.ended hq hid)
  have hall : l.asProactor.handed = l.asProactor.reports.length := by
    simp only [asProactor, List.length_map, hq.dispatched]
  exact (Proactor.lawful_run (asProactor_run hsub)).last_answer hall hend

/-- When a loop that lost no request has nothing left to do, every accepted
request was answered: its subscriber got the last result, after any earlier
ones of a multi-shot request, and a single-shot request got exactly one call. -/
theorem requests_answered {n : Nat} {l : EventLoop} (h : Run step Served (new n 0) l) (hq : Quiet l) {id : Nat}
    {a : Accepted} (ha : l.accepted[id]? = some a) :
    ∃ earlier r, (l.callsFor id).map (·.what) = earlier.map (fun r => reply (a, r)) ++ [reply (a, r)] ∧
      r.last = true ∧ (∀ x ∈ earlier, x.last = false) ∧ (a.request.op.multishot = false → earlier = []) := by
  have hsub : Run step Subscribed (new n 0) l := h.mono fun _ _ => And.left
  obtain ⟨earlier, r, heq, hl, hearlier⟩ := quiet_answers h hq (List.getElem?_eq_some_iff.1 ha).1
  refine ⟨earlier, r, ?_, hl, hearlier, fun hm => ?_⟩
  · rw [callsFor_eq hsub ha, heq, List.map_append]
    rfl
  · have hone := (Proactor.lawful_run (asProactor_run hsub)).answersOf_once ha hm
    rw [heq, List.length_append, List.length_singleton] at hone
    exact List.eq_nil_of_length_eq_zero (by omega)

theorem requests_answered_two :
    ∃ l, Run step Served (new 4 0) l ∧ ∃ r, (l.callsFor 1).map (·.what) = [reply (⟨.write 6 ⟨4096, 3⟩, some 8, 200⟩, r)] ∧
      r.last = true := by
  obtain ⟨l, hr, hp⟩ := exists_run step (fun l a => decide (Served l a)) (fun _ _ => of_decide_eq_true) (new 4 0)
    twoStreams (fun l => l.pending == [] && l.ring.unsubmitted == [] && l.ring.inflight == [] &&
      l.dispatched == l.ring.posted.length && l.accepted[1]? == some ⟨.write 6 ⟨4096, 3⟩, some 8, 200⟩)
    (by decide +kernel)
  simp only [Bool.and_eq_true, beq_iff_eq] at hp
  obtain ⟨⟨⟨⟨h1, h2⟩, h3⟩, h4⟩, h5⟩ := hp
  obtain ⟨earlier, r, heq, hl, -, hone⟩ := requests_answered hr ⟨h1, h2, h3, h4⟩ h5
  rw [hone rfl] at heq
  exact ⟨l, hr, r, heq, hl⟩

end EventLoop

end RingNet
