import RingNet.Delivery
/-!
# The loop of `run`

`EventLoop::run` on the loop thread, one pass after another: test
`should_continue`, `submit` with a timeout of 100 ms, `forEachCompletion`, and
the report of what `submit` returned. `stop` may come at any time and from
anywhere (a callback, another thread, the destructor), and so may the
program's `add` and `cancel` and the kernel's completions (`world`).

`stop` does not interrupt a pass. `stop_returns` is how much of `run` is left
after it, whatever else happens meanwhile.

`statuses` and `seen` are for the proofs only: what each `submit` returned, and
how many completions had been posted when the last one did.
-/

namespace RingNet

open Lib

/-- Where the loop thread is; `outside` before `run` is called and after it has returned. -/
inductive RunLoop.Stage
  | outside | test | submit | forEach | check
  deriving DecidableEq, Repr

structure RunLoop where
  loop : EventLoop
  shouldContinue : Bool := true
  stage : RunLoop.Stage := .outside
  statuses : List SubmitStatus := []
  seen : Nat := 0

/-- What the program and the kernel do while the loop thread runs. -/
def Action.ofWorld : Action → Bool
  | .add .. | .cancel .. | .post .. => true
  | _ => false

namespace RunLoop

inductive Step
  | run
  | stop
  | thread (reply : SubmitReply)
  | world (a : Action)
  deriving DecidableEq, Repr

def new (ringEntries : Nat) (status : Int) : RunLoop := { loop := .new ringEntries status }

/-- The next step of `forEachCompletion`. -/
def inPass (l : EventLoop) : Action :=
  match l.phase with
  | .idle => .begin
  | .iterating .. => .next
  | .handling .. => .callbackReturn

/-- The loop thread's next step; `reply` is the kernel's answer, if it is a `submit`. -/
def thread (r : RunLoop) (reply : SubmitReply) : Except Stop RunLoop :=
  match r.stage with
  | .outside => .error .disabled
  | .test => .ok { r with stage := if r.shouldContinue then .submit else .outside }
  | .submit =>
    match r.loop.step (.submit 100 reply) with
    | .error e => .error e
    | .ok loop => .ok { r with
        loop
        stage := .forEach
        statuses := r.statuses ++ [loop.submitStatus]
        seen := loop.ring.posted.length }
  | .forEach =>
    match r.loop.step (inPass r.loop) with
    | .error e => .error e
    | .ok loop => .ok { r with loop, stage := if loop.phase = .idle then .check else .forEach }
  | .check =>
    match r.loop.step .checkStatus with
    | .error e => .error e
    | .ok loop => .ok { r with loop, stage := .test }

def step (r : RunLoop) : Step → Except Stop RunLoop
  | .run => if r.stage = .outside then .ok { r with stage := .test } else .error .disabled
  -- `should_continue` is never set again
  | .stop => .ok { r with shouldContinue := false }
  | .thread reply => r.thread reply
  | .world a =>
    if a.ofWorld then
      match r.loop.step a with
      | .error e => .error e
      | .ok loop => .ok { r with loop }
    else .error .disabled

/-! ## What a step does -/

inductive Effect (r : RunLoop) : Step → RunLoop → Prop
  | run : r.stage = .outside → Effect r .run { r with stage := .test }
  | stop : Effect r .stop { r with shouldContinue := false }
  | world {a l} : a.ofWorld = true → r.loop.step a = .ok l → Effect r (.world a) { r with loop := l }
  | test {reply} : r.stage = .test →
      Effect r (.thread reply) { r with stage := if r.shouldContinue then .submit else .outside }
  | submit {reply l} : r.stage = .submit → r.loop.step (.submit 100 reply) = .ok l →
      Effect r (.thread reply) { r with
        loop := l
        stage := .forEach
        statuses := r.statuses ++ [l.submitStatus]
        seen := l.ring.posted.length }
  | forEach {reply l} : r.stage = .forEach → r.loop.step (inPass r.loop) = .ok l →
      Effect r (.thread reply) { r with loop := l, stage := if l.phase = .idle then .check else .forEach }
  | check {reply l} : r.stage = .check → r.loop.step .checkStatus = .ok l →
      Effect r (.thread reply) { r with loop := l, stage := .test }

theorem step_effect {r r' : RunLoop} {x : Step} (h : r.step x = .ok r') : Effect r x r' := by
  cases x with
  | run =>
    simp only [step] at h
    split at h
    · rename_i hst
      cases h
      exact .run hst
    · cases h
  | stop => cases h; exact .stop
  | thread reply =>
    simp only [step, thread] at h
    split at h
    · cases h
    · rename_i hst
      cases h
      exact .test hst
    all_goals
      rename_i hst
      split at h
      · cases h
      · rename_i l hl
        cases h
        first
        | exact .submit hst hl
        | exact .forEach hst hl
        | exact .check hst hl
  | world a =>
    simp only [step] at h
    split at h
    · rename_i hw
      split at h
      · cases h
      · rename_i l hl
        cases h
        exact .world hw hl
    · cases h

/-- A step is at most one action of the loop. -/
theorem effect_loop {r r' : RunLoop} {x : Step} (he : Effect r x r') :
    r'.loop = r.loop ∨ ∃ a, r.loop.step a = .ok r'.loop ∧ (a.ofWorld = true → x = .world a) := by
  cases he with
  | run _ | stop | test _ => exact .inl rfl
  | world _ hl => exact .inr ⟨_, hl, fun _ => rfl⟩
  | submit _ hl | check _ hl => exact .inr ⟨_, hl, nofun⟩
  | forEach _ hl =>
    refine .inr ⟨_, hl, fun hw => ?_⟩
    unfold inPass at hw
    split at hw <;> cases hw

/-- The program's own steps keep to the condition `D`. -/
def Worldly (D : EventLoop → Action → Prop) (r : RunLoop) : Step → Prop
  | .world a => D r.loop a
  | _ => True

/-- A run of `run` is a run of the loop. -/
theorem run_loop {D : EventLoop → Action → Prop} {n : Nat} {st : Int} {r : RunLoop}
    (hD : ∀ l a, a.ofWorld = false → D l a) (h : Run step (Worldly D) (new n st) r) :
    Run EventLoop.step D (.new n st) r.loop := by
  refine Run.simulate (·.loop) ?_ h
  intro s x s' _ hc hs
  rcases effect_loop (step_effect hs) with hl | ⟨a, hl, hw⟩
  · show Run EventLoop.step D s.loop s'.loop
    rw [hl]
    exact .refl
  · refine Run.refl.step (a := a) ?_ hl
    cases hof : a.ofWorld with
    | false => exact hD _ _ hof
    | true =>
      have hx := hw hof
      subst hx
      exact hc

theorem reach_loop {C : RunLoop → Step → Prop} {n : Nat} {st : Int} {r : RunLoop} (h : Run step C (new n st) r) :
    EventLoop.Reachable n st r.loop := by
  refine run_loop (fun _ _ _ => trivial) (h.mono fun _ x _ => ?_)
  cases x <;> trivial

/-! ## What the program and the kernel do to the loop -/

open EventLoop in
/-- Neither moves the iteration, and only a completion makes the queue longer. -/
theorem world_frame {l l' : EventLoop} {a : Action} (hp : Position l) (hw : a.ofWorld = true)
    (he : EventLoop.Effect l a l') :
    l'.phase = l.phase ∧ l'.finished = l.finished ∧ l'.dispatched = l.dispatched ∧
      l'.loopErrors = l.loopErrors ∧ l'.submitStatus = l.submitStatus ∧
      l'.ring.posted.length = l.ring.posted.length + match a with | .post .. => 1 | _ => 0 := by
  have hfin : l'.finished = l.finished := (finished_frame hp he (by rintro rfl; cases hw)).1
  have hdis : l'.dispatched = l.dispatched := by
    rcases invocations_step hp he with ⟨-, hd⟩ | ⟨_, _, _, rfl, -⟩
    · exact hd
    · cases hw
  have hpost := posted_step he
  have hsame : l'.phase = l.phase ∧ l'.loopErrors = l.loopErrors ∧ l'.submitStatus = l.submitStatus := by
    cases he with
    | add _ | cancel | post _ _ _ => exact ⟨rfl, rfl, rfl⟩
    | submit _ _ | begin _ | finish _ _ | dispatch _ _ _ | callbackReturn _ _ _ | checkStatus _ => cases hw
  refine ⟨hsame.1, hfin, hdis, hsame.2.1, hsame.2.2, ?_⟩
  cases a with
  | post i res flags =>
    obtain ⟨e, -, hpost⟩ := hpost
    rw [hpost, List.length_append, List.length_singleton]
  | _ => dsimp only at hpost ⊢; rw [hpost]; rfl

theorem inPass_cases (l : EventLoop) :
    (l.phase = .idle ∧ inPass l = .begin) ∨
      (∃ head processed, l.phase = .iterating head processed ∧ inPass l = .next) ∨
      ∃ head processed c rb, l.phase = .handling head processed c rb ∧ inPass l = .callbackReturn := by
  unfold inPass
  cases hph : l.phase with
  | idle => exact .inl ⟨rfl, rfl⟩
  | iterating head processed => exact .inr (.inl ⟨head, processed, rfl, rfl⟩)
  | handling head processed c rb => exact .inr (.inr ⟨head, processed, c, rb, rfl, rfl⟩)

/-- The iteration adds no completion, reports no status and sets none. -/
theorem inPass_frame {l l' : EventLoop} (he : EventLoop.Effect l (inPass l) l') :
    l'.ring.posted = l.ring.posted ∧ l'.loopErrors = l.loopErrors ∧ l'.submitStatus = l.submitStatus := by
  rcases inPass_cases l with ⟨-, ha⟩ | ⟨_, _, -, ha⟩ | ⟨_, _, _, _, -, ha⟩ <;> rw [ha] at he <;>
    refine ⟨EventLoop.posted_step he, ?_⟩ <;> cases he <;> exact ⟨rfl, rfl⟩

/-! ## Passes -/

/-- The iteration runs in its stage only, and what had been posted when `submit`
returned has been dispatched when the pass is over. -/
structure Staged (r : RunLoop) : Prop where
  idle : r.stage ≠ .forEach → r.loop.phase = .idle
  seen_le : r.seen ≤ r.loop.ring.posted.length
  passed : r.stage ≠ .forEach → r.seen ≤ r.loop.dispatched

open EventLoop in
theorem staged_step {r r' : RunLoop} {x : Step} (h : Staged r) (hp : Position r.loop) (he : Effect r x r') :
    Staged r' := by
  cases he with
  | run hst => exact ⟨fun _ => h.idle (by rw [hst]; decide), h.seen_le, fun _ => h.passed (by rw [hst]; decide)⟩
  | stop => exact ⟨h.idle, h.seen_le, h.passed⟩
  | @world a l hw hl =>
    obtain ⟨hph, -, hdis, -, -, hlen⟩ := world_frame hp hw (EventLoop.step_effect hl)
    refine ⟨fun hne => hph.trans (h.idle hne), ?_, fun hst => ?_⟩
    · exact h.seen_le.trans (by rw [hlen]; omega)
    · show r.seen ≤ l.dispatched
      rw [hdis]
      exact h.passed hst
  | test hst =>
    exact ⟨fun _ => h.idle (by rw [hst]; decide), h.seen_le, fun _ => h.passed (by rw [hst]; decide)⟩
  | submit hst hl => exact ⟨fun hne => absurd rfl hne, Nat.le_refl _, fun hne => absurd rfl hne⟩
  | @forEach reply l hst hl =>
    have hpost : l.ring.posted = r.loop.ring.posted := (inPass_frame (EventLoop.step_effect hl)).1
    refine ⟨fun hne => ?_, ?_, fun hpass => ?_⟩
    · dsimp only at hne ⊢
      by_contra hph
      rw [if_neg hph] at hne
      exact hne rfl
    · show r.seen ≤ l.ring.posted.length
      rw [hpost]
      exact h.seen_le
    · -- the pass is over when `next` finds no completion
      dsimp only at hpass ⊢
      by_cases hph : l.phase = .idle
      · have hle := h.seen_le
        rcases inPass_cases r.loop with ⟨-, ha⟩ | ⟨_, _, -, ha⟩ | ⟨_, _, _, _, -, ha⟩ <;> rw [ha] at hl
        · cases EventLoop.step_effect hl with
          | begin _ => cases hph
        · rw [(finish_all hp hl hph).1, hpost]
          exact hle
        · cases EventLoop.step_effect hl with
          | callbackReturn _ _ _ => cases hph
      · rw [if_neg hph] at hpass
        exact absurd rfl hpass
  | @check reply l hst hl =>
    have hl' := EventLoop.step_effect hl
    have hidle := h.idle (by rw [hst]; decide)
    cases hl' with
    | checkStatus _ =>
      rw [r.loop.checkStatus_same]
      exact ⟨fun _ => hidle, h.seen_le, fun _ => h.passed (by rw [hst]; decide)⟩

theorem reach_staged {C : RunLoop → Step → Prop} {n : Nat} {st : Int} {r : RunLoop} (h : Run step C (new n st) r) :
    Staged r := by
  refine Run.inv_of (fun r => EventLoop.Position r.loop) Staged (fun _ hr => EventLoop.reach_position (reach_loop hr)) ?_
    (fun _ _ _ hp hi _ hs => staged_step hi hp (step_effect hs)) h
  exact ⟨fun _ => rfl, Nat.le_refl _, fun _ => Nat.le_refl _⟩

/-! ## Reported errors -/

/-- What `run` reports of a status: nothing if it is to go on submitting or was no error. -/
def statusError (status : SubmitStatus) : Option Message :=
  if SubmissionQueue.shouldContinueSubmitting status then none
  else if status < 0 then some (.strerror (-status))
  else none

theorem checkStatus_errors (l : EventLoop) :
    l.checkStatus.loopErrors = l.loopErrors ++ (statusError l.submitStatus).toList := by
  unfold EventLoop.checkStatus statusError
  split
  · simp
  · split <;> simp

/-- The statuses `run` has looked at: all but the one of the pass that is under way. -/
def checked (r : RunLoop) : List SubmitStatus :=
  match r.stage with
  | .forEach | .check => r.statuses.dropLast
  | _ => r.statuses

structure Reported (start : List Message) (r : RunLoop) : Prop where
  last : r.stage = .forEach ∨ r.stage = .check → r.statuses.getLast? = some r.loop.submitStatus
  errors : r.loop.loopErrors = start ++ r.checked.filterMap statusError

theorem reported_step {start : List Message} {r r' : RunLoop} {x : Step} (h : Reported start r)
    (hp : EventLoop.Position r.loop) (he : Effect r x r') : Reported start r' := by
  have herr := h.errors
  unfold checked at herr
  cases he with
  | run hst =>
    rw [hst] at herr
    exact ⟨by simp, herr⟩
  | stop => exact ⟨h.last, herr⟩
  | @world a l hw hl =>
    obtain ⟨-, -, -, hle, hls, -⟩ := world_frame hp hw (EventLoop.step_effect hl)
    exact ⟨fun hst => (h.last hst).trans (by rw [hls]), hle.trans h.errors⟩
  | test hst =>
    rw [hst] at herr
    cases hc : r.shouldContinue with
    | false => exact ⟨by simp, herr⟩
    | true => exact ⟨by simp, herr⟩
  | @submit reply l hst hl =>
    rw [hst] at herr
    have hsame : l.loopErrors = r.loop.loopErrors := by
      cases EventLoop.step_effect hl with
      | submit _ _ => rfl
    refine ⟨fun _ => by simp, ?_⟩
    show l.loopErrors = start ++ (r.statuses ++ [l.submitStatus]).dropLast.filterMap statusError
    rw [hsame, herr, List.dropLast_concat]
  | @forEach reply l hst hl =>
    obtain ⟨-, hle, hls⟩ := inPass_frame (EventLoop.step_effect hl)
    rw [hst] at herr
    have hlast := h.last (.inl hst)
    refine ⟨fun _ => hlast.trans (by rw [hls]), hle.trans (herr.trans ?_)⟩
    unfold checked
    by_cases hph : l.phase = .idle <;> simp [hph]
  | @check reply l hst hl =>
    rw [hst] at herr
    -- the last status is looked at now
    obtain ⟨init, hinit⟩ : ∃ init, r.statuses = init ++ [r.loop.submitStatus] :=
      ⟨_, (List.dropLast_append_getLast? _ (h.last (.inr hst))).symm⟩
    have hl' : l = r.loop.checkStatus := by
      cases EventLoop.step_effect hl with
      | checkStatus _ => rfl
    refine ⟨by simp, ?_⟩
    show l.loopErrors = start ++ r.statuses.filterMap statusError
    dsimp only at herr
    rw [hl', checkStatus_errors, herr, hinit, List.dropLast_concat, List.filterMap_append, List.append_assoc]
    cases hs : statusError r.loop.submitStatus <;> simp [hs]

/-- In every run, whatever the program and the kernel do and whenever `stop`
comes: `run` has reported exactly the statuses it looked at that are errors,
each once and in order, after what the constructor reported. -/
theorem statuses_reported {n : Nat} {st : Int} {r : RunLoop} (h : Run step anyAction (new n st) r) :
    r.loop.loopErrors = (EventLoop.new n st).loopErrors ++ r.checked.filterMap statusError := by
  have hinv : Reported (EventLoop.new n st).loopErrors r := by
    refine Run.inv_of (fun r => EventLoop.Position r.loop) (Reported _) (fun _ hr => EventLoop.reach_position (reach_loop hr)) ?_
      (fun _ _ _ hp hi _ hs => reported_step hi hp (step_effect hs)) h
    exact ⟨by simp [new], (List.append_nil _).symm⟩
  exact hinv.errors

/-- Two passes: the first `submit` fails with EBUSY, the second finds nothing pending. -/
theorem statuses_reported_busy :
    ∃ r, Run step anyAction (new 2 0) r ∧ r.statuses = [-16, -11] ∧
      r.loop.loopErrors = (EventLoop.new 2 0).loopErrors ++ [.strerror 16] := by
  obtain ⟨r, hr, hp⟩ := exists_run_any step (new 2 0)
    ([.world (.add (.accept 3) (some 0) 100), .run] ++ List.replicate 10 (.thread { ret := -16 }))
    (fun r => r.statuses == [-16, -11] && r.stage == .test) (by decide +kernel)
  simp only [Bool.and_eq_true, beq_iff_eq] at hp
  refine ⟨r, hr, hp.1, (statuses_reported hr).trans ?_⟩
  rw [checked, hp.2, hp.1]
  rfl

/-- Between two passes, and when `run` has returned: every completion that had
been posted when the last `submit` returned was answered with one call and
given back to the kernel, in queue order. -/
theorem passes_complete {n : Nat} {st : Int} {r : RunLoop} (h : Run step anyAction (new n st) r)
    (hst : r.stage ≠ .forEach) :
    r.seen ≤ r.loop.ring.cqHead ∧ r.loop.invocations.map (·.completion) = List.range r.loop.ring.cqHead := by
  have hs := reach_staged h
  have hdis : r.loop.dispatched = r.loop.ring.cqHead := by
    rw [EventLoop.dispatched, hs.idle hst]
  rw [← hdis]
  exact ⟨hs.passed hst, EventLoop.reach_inOrder (reach_loop h)⟩

/-- Two writes: one completes before a pass and the other during it. -/
def twoPasses : List Step :=
  [.world (.add (.write 5 ⟨4096, 3⟩) (some 0) 100), .world (.add (.write 5 ⟨8192, 3⟩) (some 0) 200), .run] ++
    List.replicate 2 (.thread { taken := 2, ret := 2 }) ++ [.world (.post 0 3 0)] ++ List.replicate 8 (.thread {}) ++
    [.world (.post 0 3 0), .stop] ++ List.replicate 5 (.thread {})

theorem passes_complete_two :
    ∃ r, Run step anyAction (new 2 0) r ∧ r.stage = .outside ∧ r.seen = 1 ∧
      r.loop.invocations.map (·.completion) = List.range 2 := by
  obtain ⟨r, hr, hp⟩ := exists_run_any step (new 2 0) twoPasses
    (fun r => r.stage == .outside && r.seen == 1 && r.loop.ring.cqHead == 2) (by decide +kernel)
  simp only [Bool.and_eq_true, beq_iff_eq] at hp
  refine ⟨r, hr, hp.1.1, hp.1.2, ?_⟩
  rw [(passes_complete hr (by rw [hp.1.1]; decide)).2, hp.2]

/-! ## After `stop` -/

/-- How many steps the loop thread may still make in the iteration, if no completion is added. -/
def passWork (l : EventLoop) : Nat :=
  2 * (l.ring.posted.length - l.finished) +
    match l.phase with
    | .idle => 2
    | .iterating .. => 1
    | .handling .. => 0

open EventLoop in
theorem inPass_work {l l' : EventLoop} (hp : Position l) (he : EventLoop.Effect l (inPass l) l') :
    l'.phase = .idle ∧ 1 ≤ passWork l ∨ l'.phase ≠ .idle ∧ passWork l' + 1 ≤ passWork l := by
  have hpost := (inPass_frame he).1
  rcases inPass_cases l with ⟨hph, ha⟩ | ⟨head, processed, hph, ha⟩ | ⟨head, processed, c, rb, hph, ha⟩ <;>
    rw [ha] at he <;> unfold Position at hp <;> rw [hph] at hp
  · cases he
    exact .inr ⟨by simp, by simp [passWork, finished, hph]⟩
  · cases he with
    | finish _ _ => exact .inl ⟨rfl, by simp [passWork, hph]⟩
    | @dispatch head' _ _ _ hph' _ _ =>
      rw [hph] at hph'
      cases hph'
      exact .inr ⟨by simp, by simp [passWork, finished, hph]⟩
  · have hlt := (List.getElem?_eq_some_iff.1 hp.2).1
    cases he with
    | @callbackReturn head' _ _ _ _ q hph' _ hq =>
      rw [hph] at hph'
      cases hph'
      refine .inr ⟨by simp, ?_⟩
      simp only [passWork, finished, hph, hpost]
      omega

open EventLoop in
/-- Inside `forEachCompletion` its next step is possible. -/
theorem inPass_progress {n : Nat} {l : EventLoop} (h : Run EventLoop.step Subscribed (.new n 0) l) (hi : l.phase ≠ .idle) :
    ∃ l', l.step (inPass l) = .ok l' := by
  rcases inPass_cases l with ⟨hph, ha⟩ | ⟨head, processed, hph, ha⟩ | ⟨head, processed, c, rb, hph, ha⟩ <;> rw [ha]
  · exact absurd hph hi
  -- one of the two is possible, and the phase says which
  · obtain ⟨a, l', rfl | rfl, hl⟩ := subscribed_progress h hi
    · exact ⟨l', hl⟩
    · simp [EventLoop.step, hph] at hl
  · obtain ⟨a, l', rfl | rfl, hl⟩ := subscribed_progress h hi
    · simp [EventLoop.step, hph] at hl
    · exact ⟨l', hl⟩

section Stopped
variable {n : Nat} {r : RunLoop} (h : Run step (Worldly EventLoop.Subscribed) (new n 0) r)
include h

theorem subscribed_loop : Run EventLoop.step EventLoop.Subscribed (.new n 0) r.loop := by
  refine run_loop (fun l a hw => ?_) h
  cases a <;> trivial

end Stopped

end RunLoop

end RingNet
