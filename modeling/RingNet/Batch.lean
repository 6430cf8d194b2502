import RingNet.Attribution
import RingNet.Buffers
/-!
# One pass over the completion queue

`forEachCompletion` with `run`'s handler, as one function of what is in the
queue: for each entry the handler, in which a callback may add requests and
cancel, and then `release`. The handler checks `user_data` for null, `release`
reads a header through it without a check, and `SubmissionQueue::cancel` in a
fresh slot queues an entry that completes with null.
-/

namespace RingNet

open Lib

namespace EventLoop

/-- What a callback does to the loop. -/
def Calls (_ : EventLoop) : Action → Prop
  | .add .. | .cancel .. => True
  | _ => False

/-- The call for an entry has been recorded. -/
def noted (l : EventLoop) (head : Nat) (cqe : Cqe) (d : Dispatched) : EventLoop :=
  { l with invocations := l.invocations ++ [⟨head, cqe.owner, d.request, d.what⟩] }

section
variable (callback : Invocation → EventLoop → EventLoop)

/-- The iteration for one entry: `run`'s handler, with the callback in it, and `release`. -/
def handleOne (l : EventLoop) (head : Nat) (cqe : Cqe) : Except Fault EventLoop :=
  match l.dispatch cqe with
  | .error f => .error f
  | .ok d => (callback d.what (l.noted head cqe d)).afterHandler cqe d.releaseBuffer

def handleEach : List Cqe → Nat → EventLoop → Except Fault EventLoop
  | [], _, l => .ok l
  | cqe :: cqes, head, l =>
    match handleOne callback l head cqe with
    | .error f => .error f
    | .ok l => handleEach cqes (head + 1) l

/-- `cqes` are the entries in the queue. -/
def forEachCompletion (l : EventLoop) (cqes : List Cqe) : Except Fault EventLoop :=
  match handleEach callback cqes l.ring.cqHead l with
  | .error f => .error f
  | .ok l =>
    .ok { l with submissionQueue := { l.submissionQueue with ring := l.ring.cqAdvance cqes.length } }

end

/-! ## Callbacks -/

theorem calls_frame {l l' : EventLoop} (h : Run step Calls l l') :
    l'.bufferRing = l.bufferRing ∧ l'.invocations = l.invocations ∧ l'.ring.posted = l.ring.posted ∧
      l'.ring.cqHead = l.ring.cqHead ∧ ∀ b ∈ l.pool, b ∈ l'.pool := by
  refine Run.inv (fun l' => l'.bufferRing = l.bufferRing ∧ l'.invocations = l.invocations ∧
    l'.ring.posted = l.ring.posted ∧ l'.ring.cqHead = l.ring.cqHead ∧ ∀ b ∈ l.pool, b ∈ l'.pool)
    ⟨rfl, rfl, rfl, rfl, fun _ hb => hb⟩ ?_ h
  rintro s a s' ⟨h1, h2, h3, h4, h5⟩ hc hs
  have he := step_effect hs
  cases he with
  | add _ => exact ⟨h1, h2, h3, h4, fun b hb => List.mem_cons_of_mem _ (h5 b hb)⟩
  | @cancel fd taken =>
    obtain ⟨new, hm, hq, -⟩ := s.cancel_spec fd taken
    refine ⟨h1, h2, hm.posted.trans h3, hm.cqHead.trans h4, fun b hb => ?_⟩
    have hpool : (s.cancel fd taken).pool = s.pool := congrArg (·.requestPool) hq
    rw [hpool]
    exact h5 b hb
  | submit _ _ | begin _ | finish _ _ | dispatch _ _ _ | callbackReturn _ _ _ | checkStatus _ | post _ _ _ =>
    exact hc.elim

theorem calls_traced {l l' : EventLoop} (ht : Traced l) (h : Run step Calls l l') : Traced l' :=
  Run.inv Traced ht (fun _ _ _ hi _ hs => traced_step hi (step_effect hs)) h

/-- Where the loop thread is makes no difference to what a callback does. -/
theorem calls_phase {l l' : EventLoop} (h : Run step Calls l l') (p : Phase) :
    Run step anyAction { l with phase := p } { l' with phase := p } := by
  refine Run.simulate (fun l => ({ l with phase := p } : EventLoop)) ?_ h
  intro s a s' _ hc hs
  refine Run.refl.step (a := a) trivial ?_
  cases a with
  | add r u addr =>
    simp only [step] at hs ⊢
    split at hs
    · rename_i hf
      cases hs
      exact if_pos hf
    · cases hs
  | cancel fd taken =>
    cases hs
    rfl
  | submit | begin | next | callbackReturn | checkStatus | post => exact hc.elim

/-! ## It is what the loop thread does -/

theorem afterHandler_phase {l l' : EventLoop} {c : Cqe} {rb : Bool} (h : l.afterHandler c rb = .ok l') (p : Phase) :
    ({ l with phase := p } : EventLoop).afterHandler c rb = .ok { l' with phase := p } := by
  obtain ⟨b, q, hb, hq, rfl⟩ := afterHandler_ok.1 h
  exact afterHandler_ok.2 ⟨b, q, hb, hq, rfl⟩

theorem afterHandler_error_phase {l : EventLoop} {c : Cqe} {rb : Bool} {f : Fault} (h : l.afterHandler c rb = .error f)
    (p : Phase) : ({ l with phase := p } : EventLoop).afterHandler c rb = .error f := by
  unfold afterHandler at h ⊢
  split at h
  · rename_i hb
    cases h
    simp only [hb]
  · rename_i hb
    split at h
    · rename_i hq
      cases h
      simp only [hb, hq]
    · cases h

/-- Giving a buffer and a block back leaves the queue's entries. -/
theorem afterHandler_ring {l l' : EventLoop} {c : Cqe} {rb : Bool} (h : l.afterHandler c rb = .ok l') :
    l'.ring = l.ring := by
  obtain ⟨b, q, -, hq, rfl⟩ := afterHandler_ok.1 h
  exact congrArg (·.ring) (SubmissionQueue.release_same hq)

/-- The rest of the entries are the rest of the queue. -/
theorem posted_rest {l l' : EventLoop} {c : Cqe} {cqes : List Cqe} {head : Nat}
    (h : ∀ i, i < (c :: cqes).length → l.ring.posted[head + i]? = (c :: cqes)[i]?)
    (hp : l'.ring.posted = l.ring.posted) : ∀ i, i < cqes.length → l'.ring.posted[head + 1 + i]? = cqes[i]? := by
  intro i hi
  have := h (i + 1) (by simpa using hi)
  rw [hp, show head + 1 + i = head + (i + 1) by omega]
  simpa using this

section Machine
variable {callback : Invocation → EventLoop → EventLoop} (hcb : ∀ v l, Run step Calls l (callback v l))
include hcb

/-- Up to the end of the handler. -/
theorem handler_run {l : EventLoop} {head : Nat} (processed : Nat) {c : Cqe} {d : Dispatched}
    (hc : l.ring.posted[head]? = some c) (hd : l.dispatch c = .ok d) :
    Run step anyAction { l with phase := .iterating head processed }
      { callback d.what (l.noted head c d) with phase := .handling head (processed + 1) c d.releaseBuffer } := by
  have hnext : ({ l with phase := .iterating head processed } : EventLoop).step .next =
      .ok { l.noted head c d with phase := .handling head (processed + 1) c d.releaseBuffer } := by
    have hd' : ({ l with phase := .iterating head processed } : EventLoop).dispatch c = .ok d := hd
    simp only [step, hc, hd']
    rfl
  have hcall := calls_phase (hcb d.what (l.noted head c d)) (.handling head (processed + 1) c d.releaseBuffer)
  exact (Run.refl.step trivial hnext).trans hcall

theorem handleOne_run {l l' : EventLoop} {head : Nat} (processed : Nat) {c : Cqe} (hc : l.ring.posted[head]? = some c)
    (h : handleOne callback l head c = .ok l') : l'.ring.posted = l.ring.posted ∧ l'.ring.cqHead = l.ring.cqHead ∧
      Run step anyAction { l with phase := .iterating head processed }
        { l' with phase := .iterating (head + 1) (processed + 1) } := by
  unfold handleOne at h
  split at h
  · cases h
  · rename_i d hd
    obtain ⟨-, -, hpost, hcq, -⟩ := calls_frame (hcb d.what (l.noted head c d))
    have hring := afterHandler_ring h
    refine ⟨by rw [hring]; exact hpost, by rw [hring]; exact hcq, ?_⟩
    have hret := afterHandler_phase h (.handling head (processed + 1) c d.releaseBuffer)
    refine (handler_run hcb processed hc hd).step (a := .callbackReturn) trivial ?_
    simp only [step, hret]

/-- A pass that ends is a run of the loop thread's steps and the callbacks'. -/
theorem handleEach_run {cqes : List Cqe} {head : Nat} (processed : Nat) {l l' : EventLoop}
    (hcq : ∀ i, i < cqes.length → l.ring.posted[head + i]? = cqes[i]?) (h : handleEach callback cqes head l = .ok l') :
    l'.ring.posted = l.ring.posted ∧ l'.ring.cqHead = l.ring.cqHead ∧
      Run step anyAction { l with phase := .iterating head processed }
        { l' with phase := .iterating (head + cqes.length) (processed + cqes.length) } := by
  induction cqes generalizing l head processed with
  | nil =>
    cases h
    exact ⟨rfl, rfl, .refl⟩
  | cons c cqes ih =>
    simp only [handleEach] at h
    split at h
    · cases h
    · rename_i l₁ h₁
      obtain ⟨hp₁, hq₁, hr₁⟩ := handleOne_run hcb processed (by simpa using hcq 0 (by simp)) h₁
      obtain ⟨hp, hq, hr⟩ := ih (processed + 1) (posted_rest hcq hp₁) h
      refine ⟨hp.trans hp₁, hq.trans hq₁, hr₁.trans ?_⟩
      rw [List.length_cons, show head + (cqes.length + 1) = head + 1 + cqes.length by omega,
        show processed + (cqes.length + 1) = processed + 1 + cqes.length by omega]
      exact hr

/-- A pass that breaks down does so in one of the loop thread's steps. -/
theorem handleEach_fault {cqes : List Cqe} {head : Nat} (processed : Nat) {l : EventLoop} {f : Fault}
    (hcq : ∀ i, i < cqes.length → l.ring.posted[head + i]? = cqes[i]?) (h : handleEach callback cqes head l = .error f) :
    ∃ l' a, Run step anyAction { l with phase := .iterating head processed } l' ∧ l'.step a = .error (.fault f) := by
  induction cqes generalizing l head processed with
  | nil => cases h
  | cons c cqes ih =>
    have hc : l.ring.posted[head]? = some c := by simpa using hcq 0 (by simp)
    simp only [handleEach] at h
    split at h
    · rename_i f' h₁
      cases h
      unfold handleOne at h₁
      split at h₁
      · rename_i hd
        cases h₁
        refine ⟨_, .next, .refl, ?_⟩
        have hd' : ({ l with phase := .iterating head processed } : EventLoop).dispatch c = .error f := hd
        simp only [step, hc, hd']
      · rename_i d hd
        refine ⟨_, .callbackReturn, handler_run hcb processed hc hd, ?_⟩
        have hret := afterHandler_error_phase h₁ (.handling head (processed + 1) c d.releaseBuffer)
        simp only [step, hret]
    · rename_i l₁ h₁
      obtain ⟨hp₁, -, hr₁⟩ := handleOne_run hcb processed hc h₁
      obtain ⟨l', a, hr, hs⟩ := ih (processed + 1) (posted_rest hcq hp₁) h
      exact ⟨l', a, hr₁.trans hr, hs⟩

/-- `forEachCompletion` on what is in the loop's own queue is a run of the machine, to the same end. -/
theorem forEachCompletion_run {l : EventLoop} (hi : l.phase = .idle) (hle : l.ring.cqHead ≤ l.ring.posted.length) :
    match forEachCompletion callback l (l.ring.posted.drop l.ring.cqHead) with
    | .ok l' => Run step anyAction l { l' with phase := .idle }
    | .error f => ∃ l' a, Run step anyAction l l' ∧ l'.step a = .error (.fault f) := by
  have hcq : ∀ i, i < (l.ring.posted.drop l.ring.cqHead).length →
      l.ring.posted[l.ring.cqHead + i]? = (l.ring.posted.drop l.ring.cqHead)[i]? := by
    intro i _
    rw [List.getElem?_drop]
  have hbegin : Run step anyAction l { l with phase := .iterating l.ring.cqHead 0 } := by
    refine Run.refl.step (a := .begin) trivial ?_
    simp only [step, if_pos hi]
  unfold forEachCompletion
  cases h : handleEach callback (l.ring.posted.drop l.ring.cqHead) l.ring.cqHead l with
  | error f =>
    obtain ⟨l', a, hr, hs⟩ := handleEach_fault hcb 0 hcq h
    exact ⟨l', a, hbegin.trans hr, hs⟩
  | ok l' =>
    obtain ⟨hp, hq, hr⟩ := handleEach_run hcb 0 hcq h
    rw [List.length_drop, Nat.zero_add] at hr
    refine (hbegin.trans hr).step (a := .next) trivial ?_
    have hend : l'.ring.posted[l.ring.cqHead + (l.ring.posted.length - l.ring.cqHead)]? = none := by
      rw [hp]
      exact List.getElem?_eq_none (by omega)
    simp only [step, hend, List.length_drop]
    split
    · rfl
    · rename_i h0
      rw [Decidable.not_not.1 h0]
      rfl

end Machine

/-! ## When a pass gets through -/

/-- The block an entry leads to. -/
def blockAt (l : EventLoop) (c : Cqe) : Option Block := RequestPool.find l.pool c.userData

/-- The entry's block holds a request that `release` gives back. -/
def singleShot (l : EventLoop) (c : Cqe) : Bool := (l.blockAt c).any fun b => !b.request.op.multishot

/-- The entry hands a provided buffer to a subscriber, which is given back afterwards. -/
def givesBack (l : EventLoop) (c : Cqe) : Bool :=
  (l.blockAt c).any fun b => b.request.op == .readMultishot && b.header.userData.isSome && decide (0 ≤ c.res) &&
    decide (c.bufferId < l.bufferRing.buffers.length)

theorem blockAt_some {l : EventLoop} (ht : Traced l) {c : Cqe} {b : Block} :
    l.blockAt c = some b ↔ b ∈ l.pool ∧ b.addr = c.userData := by
  constructor
  · exact SubmissionQueue.find_some
  · rintro ⟨hb, hu⟩
    rw [blockAt, ← hu]
    exact find_of_mem ht.addrs hb

/-- The block an entry leads to is a request's, and can be read. -/
theorem blockAt_find {l : EventLoop} (ht : Traced l) {c : Cqe} {b : Block} (hb : l.blockAt c = some b) :
    ∃ a, b = blockOf a b.id ∧ c.userData ≠ 0 ∧ RequestPool.find l.pool c.userData = some (blockOf a b.id) := by
  obtain ⟨hmem, hu⟩ := (blockAt_some ht).1 hb
  obtain ⟨a, -, hba⟩ := ht.blocks b hmem
  exact ⟨a, hba, hu ▸ ht.nonnull b hmem, hba ▸ hb⟩

/-- An entry that leads to a block is dispatched. -/
theorem dispatch_block {l : EventLoop} (ht : Traced l) {c : Cqe} {b : Block} (hb : l.blockAt c = some b) :
    ∃ d, l.dispatch c = .ok d ∧ d.releaseBuffer = l.givesBack c ∧ c.userData ≠ 0 := by
  obtain ⟨a, hba, h0, hfind⟩ := blockAt_find ht hb
  refine ⟨_, dispatch_eq h0 hfind, ?_, h0⟩
  rw [Bool.eq_iff_iff, handlerFor_releases, givesBack, hb, hba]
  simp only [blockOf, Option.any_some, Bool.and_eq_true, beq_iff_eq, decide_eq_true_eq, Request.header_userData]
  constructor
  · rintro ⟨h1, h2, h3, h4⟩
    exact ⟨⟨⟨h3, h1⟩, h2⟩, h4⟩
  · rintro ⟨⟨⟨h3, h1⟩, h2⟩, h4⟩
    exact ⟨h1, h2, h3, h4⟩

/-- The buffer ring is in order, or there is none. -/
def RingSound (b : BufferRing) : Prop := b.Ready ∨ b.bufferRing = none

/-- Giving a buffer back works with a ring, and only with one. -/
theorem release_sound {b : BufferRing} {c : Cqe} (hb : RingSound b) (hlt : c.bufferId < b.buffers.length) :
    (b.bufferRing.isSome = true ∧ ∃ b', b.release c = .ok b' ∧ RingSound b' ∧ b'.buffers = b.buffers ∧
      b'.bufferRing.isSome = true) ∨ (b.bufferRing = none ∧ b.release c = .error .bufferIndex) := by
  rcases hb with hr | hn
  · left
    obtain ⟨r, hr', -⟩ := hr.ring
    obtain ⟨b', hb'⟩ := BufferRing.release_ok hr hlt
    obtain ⟨hready, hbufs, -⟩ := BufferRing.release_ready hr hb'
    obtain ⟨r'', hr'', -⟩ := hready.ring
    exact ⟨by rw [hr']; rfl, b', hb', .inl hready, hbufs, by rw [hr'']; rfl⟩
  · right
    refine ⟨hn, ?_⟩
    rw [BufferRing.release, if_neg (BufferRing.flags_or_ne c.flags), hn, List.getElem?_eq_getElem hlt]

theorem givesBack_lt {l : EventLoop} {c : Cqe} (h : l.givesBack c = true) :
    c.bufferId < l.bufferRing.buffers.length := by
  unfold givesBack at h
  cases hb : l.blockAt c with
  | none => rw [hb] at h; cases h
  | some b =>
    rw [hb] at h
    simp only [Option.any_some, Bool.and_eq_true, decide_eq_true_eq] at h
    exact h.2

/-- The end of an iteration, for an entry that leads to block `b`. -/
theorem afterHandler_block {l : EventLoop} (ht : Traced l) (hr : RingSound l.bufferRing) {c : Cqe} {b : Block}
    (hb : l.blockAt c = some b) (rb : Bool) (hlt : rb = true → c.bufferId < l.bufferRing.buffers.length)
    (hring : rb = true → l.bufferRing.bufferRing.isSome = true) :
    ∃ l', l.afterHandler c rb = .ok l' ∧ Traced l' ∧ RingSound l'.bufferRing ∧ l'.invocations = l.invocations ∧
      l'.bufferRing.buffers = l.bufferRing.buffers ∧
      l'.bufferRing.bufferRing.isSome = l.bufferRing.bufferRing.isSome ∧
      ∀ c' b', l.blockAt c' = some b' → (c'.userData = c.userData → b.request.op.multishot = true) →
        l'.blockAt c' = some b' := by
  obtain ⟨hmem, hu⟩ := (blockAt_some ht).1 hb
  obtain ⟨a, -, h0, hfind⟩ := blockAt_find ht hb
  obtain ⟨q, hq⟩ := release_ok (q := l.submissionQueue) h0 hfind
  obtain ⟨b₁, hb₁, hs₁, hbufs, hsome⟩ : ∃ b₁, (if rb then l.bufferRing.release c else .ok l.bufferRing) = .ok b₁ ∧
      RingSound b₁ ∧ b₁.buffers = l.bufferRing.buffers ∧ b₁.bufferRing.isSome = l.bufferRing.bufferRing.isSome := by
    cases rb with
    | false => exact ⟨l.bufferRing, rfl, hr, rfl, rfl⟩
    | true =>
      rcases release_sound hr (hlt rfl) with ⟨hsome, b₁, h1, h2, h3, h4⟩ | ⟨hn, -⟩
      · exact ⟨b₁, h1, h2, h3, h4.trans hsome.symm⟩
      · have := hring rfl
        rw [hn] at this
        cases this
  refine ⟨{ l with bufferRing := b₁, submissionQueue := q }, ?_, traced_release ht hq b₁ l.phase, hs₁, rfl, hbufs,
    hsome, ?_⟩
  · exact afterHandler_ok.2 ⟨b₁, q, hb₁, hq, rfl⟩
  · -- a block at another address, or of a multi-shot request, stays
    intro c' b' hb' hm
    obtain ⟨hmem', hu'⟩ := (blockAt_some ht).1 hb'
    refine (blockAt_some (traced_release ht hq b₁ l.phase)).2 ⟨?_, hu'⟩
    obtain ⟨x, -, hx, hcase⟩ := SubmissionQueue.release_cases hq
    have hxb : x = b := Option.some.inj (hx.symm.trans hb)
    subst hxb
    rcases hcase with ⟨rfl, -⟩ | ⟨-, hsingle, hop, rfl⟩
    · exact hmem'
    · refine List.mem_filter.2 ⟨hmem', ?_⟩
      have hne : b'.addr ≠ x.addr := by
        intro e
        have := hm (hu'.symm.trans (e.trans hu))
        rw [hop, hsingle] at this
        cases this
      simpa using hne

/-- What is left of the pool after an iteration. -/
theorem afterHandler_pool {l l' : EventLoop} {c : Cqe} {rb : Bool} (h : l.afterHandler c rb = .ok l') :
    ∃ b, l.blockAt c = some b ∧ (∀ x ∈ l'.pool, x ∈ l.pool) ∧
      (l.singleShot c = true → b.header.valid = true → b.header.op = b.request.op → ∀ x ∈ l'.pool, x.addr ≠ b.addr) := by
  obtain ⟨-, q, -, hq, rfl⟩ := afterHandler_ok.1 h
  obtain ⟨b, -, hb, hcase⟩ := SubmissionQueue.release_cases hq
  have hb' : l.blockAt c = some b := hb
  refine ⟨b, hb, ?_⟩
  rcases hcase with ⟨rfl, hkept⟩ | ⟨-, -, -, rfl⟩
  · refine ⟨fun x hx => hx, fun hs hv hop => ?_⟩
    rw [singleShot, hb', Option.any_some, Bool.not_eq_true'] at hs
    rw [hop, hs, hv] at hkept
    rcases hkept with h' | h' <;> cases h'
  · refine ⟨fun x hx => (List.mem_filter.1 hx).1, fun _ _ _ x hx => ?_⟩
    simpa using (List.mem_filter.1 hx).2

theorem noted_traced {l : EventLoop} (ht : Traced l) (head : Nat) (c : Cqe) (d : Dispatched) :
    Traced (l.noted head c d) :=
  ⟨ht.addrs, ht.nonnull, ht.blocks, ht.pending, ht.entries, ht.completions⟩

/-- Entries that lead to the same block in two states are judged alike. -/
theorem judged_alike {l l' : EventLoop} {c : Cqe} (hb : l'.blockAt c = l.blockAt c)
    (hbufs : l'.bufferRing.buffers = l.bufferRing.buffers) :
    l'.singleShot c = l.singleShot c ∧ l'.givesBack c = l.givesBack c := by
  simp only [singleShot, givesBack, hb, hbufs, and_self]

/-- No two entries share a block that is given back, and buffers are given back only to a ring. -/
structure Passable (l : EventLoop) (cqes : List Cqe) : Prop where
  leads : ∀ c ∈ cqes, ∃ b, l.blockAt c = some b
  once : cqes.Pairwise fun c c' => c.userData = c'.userData → l.singleShot c = false
  ring : l.bufferRing.bufferRing.isSome = true ∨ ∀ c ∈ cqes, l.givesBack c = false

theorem passable_cons {l : EventLoop} {c : Cqe} {cqes : List Cqe} : Passable l (c :: cqes) ↔
    (∃ b, l.blockAt c = some b) ∧ (∀ c' ∈ cqes, c.userData = c'.userData → l.singleShot c = false) ∧
      (l.givesBack c = true → l.bufferRing.bufferRing.isSome = true) ∧ Passable l cqes := by
  constructor
  · intro h
    obtain ⟨hhead, hrest⟩ := List.pairwise_cons.1 h.once
    refine ⟨h.leads c List.mem_cons_self, hhead, fun hg => ?_, fun c' hc' => ?_, hrest, ?_⟩
    · refine h.ring.resolve_right fun hs => ?_
      rw [hs c List.mem_cons_self] at hg
      cases hg
    · exact h.leads c' (List.mem_cons_of_mem _ hc')
    · exact h.ring.imp_right fun hs c' hc' => hs c' (List.mem_cons_of_mem _ hc')
  · rintro ⟨hb, hhead, hgive, h⟩
    refine ⟨List.forall_mem_cons.2 ⟨hb, h.leads⟩, List.pairwise_cons.2 ⟨hhead, h.once⟩, ?_⟩
    by_cases hs : l.bufferRing.bufferRing.isSome = true
    · exact .inl hs
    · refine .inr (List.forall_mem_cons.2 ⟨?_, h.ring.resolve_left hs⟩)
      simpa using mt hgive hs

/-- What is looked at to pass the entries: their blocks and the buffer ring. -/
theorem Passable.transport {l l' : EventLoop} {cqes : List Cqe} (h : Passable l cqes)
    (hsame : ∀ c ∈ cqes, l'.blockAt c = l.blockAt c) (hbufs : l'.bufferRing.buffers = l.bufferRing.buffers)
    (hsome : l'.bufferRing.bufferRing.isSome = l.bufferRing.bufferRing.isSome) : Passable l' cqes := by
  have hjudge : ∀ c ∈ cqes, l'.singleShot c = l.singleShot c ∧ l'.givesBack c = l.givesBack c :=
    fun c hc => judged_alike (hsame c hc) hbufs
  refine ⟨fun c hc => ?_, ?_, ?_⟩
  · rw [hsame c hc]
    exact h.leads c hc
  · refine h.once.imp_of_mem fun {c₁ c₂} h₁ _ hp hu => ?_
    rw [(hjudge c₁ h₁).1]
    exact hp hu
  · rw [hsome]
    refine h.ring.imp_right fun hs c hc => ?_
    rw [(hjudge c hc).2]
    exact hs c hc

/-- Such entries are all processed, whatever the callbacks do. -/
theorem handleEach_all {callback : Invocation → EventLoop → EventLoop} (hcb : ∀ v l, Run step Calls l (callback v l))
    {cqes : List Cqe} {head : Nat} {l : EventLoop} (ht : Traced l) (hr : RingSound l.bufferRing)
    (h : Passable l cqes) : ∃ l' vs, handleEach callback cqes head l = .ok l' ∧
      l'.invocations = l.invocations ++ vs ∧ List.Forall₂ (fun c v => v.owner = c.owner) cqes vs := by
  induction cqes generalizing l head with
  | nil => exact ⟨l, [], rfl, by simp, .nil⟩
  | cons c cqes ih =>
    obtain ⟨⟨b, hb⟩, hhead, hgive, hrest⟩ := passable_cons.1 h
    obtain ⟨d, hd, hrb, -⟩ := dispatch_block ht hb
    have hrun := hcb d.what (l.noted head c d)
    obtain ⟨hbr, hinv, -, -, hpool⟩ := calls_frame hrun
    have ht₂ := calls_traced (noted_traced ht head c d) hrun
    -- the callback keeps every block
    have hkeep : ∀ {c' b'}, l.blockAt c' = some b' → (callback d.what (l.noted head c d)).blockAt c' = some b' := by
      intro c' b' hb'
      obtain ⟨hmem, hu⟩ := (blockAt_some ht).1 hb'
      exact (blockAt_some ht₂).2 ⟨hpool b' hmem, hu⟩
    have hbr' : (callback d.what (l.noted head c d)).bufferRing = l.bufferRing := hbr
    obtain ⟨l₃, h₃, ht₃, hr₃, hinv₃, hbufs₃, hsome₃, hkeep₃⟩ := afterHandler_block ht₂ (hbr' ▸ hr) (hkeep hb)
      d.releaseBuffer (by rw [hrb, hbr']; exact givesBack_lt) (by rw [hrb, hbr']; exact hgive)
    -- and the rest of the entries lead where they led
    have hsame : ∀ c' ∈ cqes, l₃.blockAt c' = l.blockAt c' := by
      intro c' hc'
      obtain ⟨b', hb'⟩ := hrest.leads c' hc'
      rw [hb']
      refine hkeep₃ c' b' (hkeep hb') fun hu => ?_
      have hs := hhead c' hc' hu.symm
      rw [singleShot, hb] at hs
      simpa using hs
    have hpass : Passable l₃ cqes := hrest.transport hsame (by rw [hbufs₃, hbr']) (by rw [hsome₃, hbr'])
    obtain ⟨l', vs, hl', hvs, hall⟩ := @ih (head + 1) l₃ ht₃ hr₃ hpass
    refine ⟨l', ⟨head, c.owner, d.request, d.what⟩ :: vs, ?_, ?_, .cons rfl hall⟩
    · simp only [handleEach, handleOne, hd, h₃]
      exact hl'
    · have hnoted : (l.noted head c d).invocations = l.invocations ++ [⟨head, c.owner, d.request, d.what⟩] := rfl
      rw [hvs, hinv₃, hinv, hnoted, List.append_assoc]
      rfl

/-- And with callbacks that do nothing, only such entries are. -/
theorem handleEach_passable {cqes : List Cqe} {head : Nat} {l l' : EventLoop} (ht : Traced l)
    (hr : RingSound l.bufferRing) (h : handleEach (fun _ l => l) cqes head l = .ok l') : Passable l cqes := by
  induction cqes generalizing l head with
  | nil => exact ⟨by simp, .nil, .inr (by simp)⟩
  | cons c cqes ih =>
    simp only [handleEach] at h
    split at h
    · cases h
    · rename_i l₁ h₁
      unfold handleOne at h₁
      split at h₁
      · cases h₁
      · rename_i d hd
        obtain ⟨b, hb, hsub, hgone⟩ := afterHandler_pool h₁
        have hb : l.blockAt c = some b := hb
        obtain ⟨d', hd', hrb, -⟩ := dispatch_block ht hb
        rw [hd] at hd'
        cases hd'
        have hring : d.releaseBuffer = true → l.bufferRing.bufferRing.isSome = true := by
          intro hg
          rcases release_sound hr (givesBack_lt (hrb ▸ hg)) with ⟨hs, -⟩ | ⟨-, he⟩
          · exact hs
          · have hnoted : (l.noted head c d).bufferRing.release c = .error .bufferIndex := he
            simp only [afterHandler, hg, if_true, hnoted] at h₁
            cases h₁
        obtain ⟨l₂, h₂, ht₂, hr₂, -, hbufs₂, hsome₂, -⟩ := afterHandler_block (noted_traced ht head c d) hr hb
          d.releaseBuffer (by rw [hrb]; exact givesBack_lt) hring
        rw [h₁] at h₂
        cases h₂
        have hpass := ih ht₂ hr₂ h
        -- what the rest leads to was there all along
        have hsame : ∀ c' ∈ cqes, l₁.blockAt c' = l.blockAt c' := by
          intro c' hc'
          obtain ⟨b', hb'⟩ := hpass.leads c' hc'
          obtain ⟨hmem, hu⟩ := (blockAt_some ht₂).1 hb'
          rw [hb', (blockAt_some ht).2 ⟨hsub b' hmem, hu⟩]
        refine passable_cons.2 ⟨⟨b, hb⟩, fun c' hc' hu => ?_, fun hg => hring (by rw [hrb]; exact hg), ?_⟩
        · by_contra hs
          obtain ⟨b', hb'⟩ := hpass.leads c' hc'
          obtain ⟨hmem, hu'⟩ := (blockAt_some ht₂).1 hb'
          obtain ⟨hbm, hbu⟩ := (blockAt_some ht).1 hb
          obtain ⟨a, -, hba⟩ := ht.blocks b hbm
          have hs' : l.singleShot c = true := by simpa using hs
          refine hgone hs' (by rw [hba]; rfl) (by rw [hba]; rfl) b' hmem ?_
          rw [hu', ← hu, hbu]
        · exact hpass.transport (fun c' hc' => (hsame c' hc').symm) hbufs₂.symm hsome₂.symm

/-- Every entry goes through the handler and `release`, whatever the callbacks
do, and those with a null `user_data` are reported to the loop's error handler. -/
def ProcessesAll (l : EventLoop) (cqes : List Cqe) : Prop :=
  ∀ callback, (∀ v l, Run step Calls l (callback v l)) →
    ∃ l' vs, forEachCompletion callback l cqes = .ok l' ∧ l'.invocations = l.invocations ++ vs ∧
      List.Forall₂ (fun c v => v.owner = c.owner ∧
        (c.userData = 0 → v.what = .errorHandler (.text "Error: Malformed completion queue entry"))) cqes vs

theorem ProcessesAll.passable {l : EventLoop} {cqes : List Cqe} (h : ProcessesAll l cqes) (ht : Traced l)
    (hr : RingSound l.bufferRing) : Passable l cqes := by
  obtain ⟨l', -, hl', -⟩ := h (fun _ l => l) fun _ _ => .refl
  unfold forEachCompletion at hl'
  split at hl'
  · cases hl'
  · rename_i hl
    exact handleEach_passable ht hr hl

theorem Passable.processesAll {l : EventLoop} {cqes : List Cqe} (h : Passable l cqes) (ht : Traced l)
    (hr : RingSound l.bufferRing) : ProcessesAll l cqes := by
  intro callback hcb
  obtain ⟨l', vs, hl', hinv, hall⟩ := @handleEach_all callback hcb cqes l.ring.cqHead l ht hr h
  refine ⟨{ l' with submissionQueue := { l'.submissionQueue with ring := l'.ring.cqAdvance cqes.length } }, vs,
    by rw [forEachCompletion, hl'], hinv, ?_⟩
  have hne : ∀ c ∈ cqes, c.userData ≠ 0 := by
    intro c hc
    obtain ⟨b, hb⟩ := h.leads c hc
    obtain ⟨hmem, hu⟩ := (blockAt_some ht).1 hb
    exact hu ▸ ht.nonnull b hmem
  rw [List.forall₂_iff_get] at hall ⊢
  refine ⟨hall.1, fun i h₁ h₂ => ⟨hall.2 i h₁ h₂, fun h0 => ?_⟩⟩
  exact absurd h0 (hne _ (List.get_mem cqes ⟨i, h₁⟩))

/-- For entries that are null or lead to an allocated block, on any loop: all
of them are processed exactly when none is null, no block of a single-shot
request is named twice, and, if the buffer ring could not be set up, none
hands out a buffer. -/
theorem processes_all_iff {n : Nat} {st : Int} {l : EventLoop} (hr : Reachable n st l) (cqes : List Cqe)
    (hdom : ∀ c ∈ cqes, c.userData = 0 ∨ ∃ b ∈ l.pool, b.addr = c.userData) :
    ProcessesAll l cqes ↔ (∀ c ∈ cqes, c.userData ≠ 0) ∧
      cqes.Pairwise (fun c c' => c.userData = c'.userData → l.singleShot c = false) ∧
      (l.bufferRing.bufferRing.isSome = true ∨ ∀ c ∈ cqes, l.givesBack c = false) := by
  have ht := reach_traced hr
  have hring : RingSound l.bufferRing := (reach_sized hr).ring.imp (fun h => h) And.right
  constructor
  · intro h
    have hp := h.passable ht hring
    refine ⟨fun c hc => ?_, hp.once, hp.ring⟩
    obtain ⟨b, hb⟩ := hp.leads c hc
    obtain ⟨hmem, hu⟩ := (blockAt_some ht).1 hb
    exact hu ▸ ht.nonnull b hmem
  · rintro ⟨hne, honce, hgive⟩
    have hp : Passable l cqes := by
      refine ⟨fun c hc => ?_, honce, hgive⟩
      obtain ⟨b, hb, hu⟩ := (hdom c hc).resolve_left (hne c hc)
      exact ⟨b, (blockAt_some ht).2 ⟨hb, hu⟩⟩
    exact hp.processesAll ht hring

/-- A write's completion, and two of an accept. -/
theorem processes_all_iff_three :
    ∃ l, Reachable 4 0 l ∧ ProcessesAll l [⟨100, 64, 0, some (.request 0)⟩, ⟨200, 9, 2, some (.request 1)⟩,
      ⟨200, -24, 0, some (.request 1)⟩] := by
  obtain ⟨l, hr, hp⟩ := exists_run_any step (new 4 0)
    [.add (.write 5 ⟨4096, 64⟩) (some 0) 100, .add (.accept 3) (some 1) 200]
    (fun l => l.pool.map (·.addr) == [200, 100] && !l.singleShot ⟨200, 9, 2, some (.request 1)⟩ &&
      [⟨100, 64, 0, some (.request 0)⟩, ⟨200, 9, 2, some (.request 1)⟩, ⟨200, -24, 0, some (.request 1)⟩].all
        (fun c => !l.givesBack c)) (by decide +kernel)
  simp only [Bool.and_eq_true, beq_iff_eq, Bool.not_eq_true', List.all_eq_true] at hp
  obtain ⟨⟨haddr, hsingle⟩, hgive⟩ := hp
  have hmem : ∀ p ∈ [200, 100], ∃ b ∈ l.pool, b.addr = p := fun p hp => List.mem_map.1 (haddr ▸ hp)
  refine ⟨l, hr, (processes_all_iff hr _ ?_).2 ⟨by simp, ?_, .inr hgive⟩⟩
  · intro c hc
    simp only [List.mem_cons, List.not_mem_nil, or_false] at hc
    rcases hc with rfl | rfl | rfl
    · exact .inr (hmem 100 (by simp))
    · exact .inr (hmem 200 (by simp))
    · exact .inr (hmem 200 (by simp))
  · simp [hsingle]

/-- A cancel in a fresh slot completes before a write: the handler reports its
null `user_data`, and `release` reads a header through it. -/
theorem null_completion_breaks_pass :
    ∃ l, Reachable 2 0 l ∧ (∀ c ∈ l.unfinished, c.userData = 0 ∨ ∃ b ∈ l.pool, b.addr = c.userData) ∧
      l.unfinished = [⟨0, 0, 0, some (.cancel 0)⟩, ⟨100, 64, 0, some (.request 0)⟩] ∧
      forEachCompletion (fun _ l => l) l l.unfinished = .error .nullHeader ∧ ¬ ProcessesAll l l.unfinished := by
  obtain ⟨l, hr, hp⟩ := exists_run_any step (new 2 0)
    [.cancel 5 0, .add (.write 6 ⟨4096, 64⟩) (some 0) 100, .submit 100 { taken := 2, ret := 2 }, .post 0 0 0,
      .post 0 64 0]
    (fun l => l.unfinished == [⟨0, 0, 0, some (.cancel 0)⟩, ⟨100, 64, 0, some (.request 0)⟩] &&
      l.pool.map (·.addr) == [100] &&
      match forEachCompletion (fun _ l => l) l l.unfinished with
      | .error f => f == .nullHeader
      | .ok _ => false) (by decide +kernel)
  simp only [Bool.and_eq_true, beq_iff_eq] at hp
  obtain ⟨⟨hun, haddr⟩, hfault⟩ := hp
  have hfault' : forEachCompletion (fun _ l => l) l l.unfinished = .error .nullHeader := by
    split at hfault
    · rename_i f hf
      rw [hf, beq_iff_eq.1 hfault]
    · cases hfault
  refine ⟨l, hr, ?_, hun, hfault', ?_⟩
  · rw [hun]
    intro c hc
    simp only [List.mem_cons, List.not_mem_nil, or_false] at hc
    rcases hc with rfl | rfl
    · exact .inl rfl
    · exact .inr (List.mem_map.1 (haddr ▸ List.mem_singleton_self 100))
  · intro h
    obtain ⟨l', vs, hl', -⟩ := h (fun _ l => l) fun _ _ => .refl
    rw [hfault'] at hl'
    cases hl'

end EventLoop

end RingNet
