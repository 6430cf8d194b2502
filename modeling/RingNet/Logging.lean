import RingNet.Delivery
import RingNet.Proactor
/-!
# What the loop logs

Before a failed request's subscriber is called, `run` writes to `std::cerr`
what the request was (`logIssuingRequest`). The text is made from the block
that the completion's user data points to, once more behind the back of the
type system: the header's operation decides what the block is read as. What a
program's own handlers print is left out.
-/

namespace RingNet

open Lib

/-- `operator<<` of the five request types. -/
def Request.text : Request → String
  | .accept listeningSocketFd => "accept request for listening socket " ++ toString listeningSocketFd
  | .connect socketFd _ _ => "connect request for socket " ++ toString socketFd
  | .read fd receptionBuffer =>
    "single shot read request using buffer of size " ++ toString receptionBuffer.size ++ " bytes for socket " ++ toString fd
  | .multiShotRead fd bufferGroupId =>
    "multi shot read request using buffer group ID " ++ toString bufferGroupId.toNat ++ " for socket " ++ toString fd
  | .write fd bytesWritten =>
    "write request of " ++ toString bytesWritten.size ++ " bytes for socket " ++ toString fd

/-- A line of the log. -/
def Request.line (r : Request) : String := "During handling of " ++ r.text ++ "\n"

namespace EventLoop

/-- The operations are an enumeration here, so there is no line for others. -/
def logIssuingRequest (l : EventLoop) (cqe : Cqe) : Except Fault String :=
  match RequestPool.read l.pool cqe.userData with
  | .error f => .error f
  | .ok b => if b.header.op = b.request.op then .ok b.request.line else .error .wrongType

/-- What an action writes: `next` a line, if it hands an error to a subscriber. -/
def logged (l : EventLoop) : Action → Except Fault (List String)
  | .next =>
    match l.nextCompletion with
    | none => .ok []
    | some cqe =>
      match l.dispatch cqe with
      | .ok ⟨_, .subscriber _ (.error _), _⟩ =>
        match l.logIssuingRequest cqe with
        | .error f => .error f
        | .ok line => .ok [line]
      | _ => .ok []
  | _ => .ok []

end EventLoop

/-- The loop and what it has written to `std::cerr`. -/
structure Logging where
  loop : EventLoop
  lines : List String := []

namespace Logging

def new (ringEntries : Nat) : Logging := { loop := .new ringEntries 0 }

def step (p : Logging) (a : Action) : Except Stop Logging :=
  match p.loop.logged a, p.loop.step a with
  | .error f, _ => .error (.fault f)
  | _, .error stop => .error stop
  | .ok lines, .ok loop => .ok { loop, lines := p.lines ++ lines }

/-- Every request has a subscriber, and nothing is cancelled. -/
def Subscribed (p : Logging) (a : Action) : Prop := EventLoop.Subscribed p.loop a

instance (p : Logging) (a : Action) : Decidable (Subscribed p a) :=
  inferInstanceAs (Decidable (EventLoop.Subscribed p.loop a))

/-- The line for a completion, if it is a failed one. -/
def failure (l : EventLoop) (c : Cqe) : Option String :=
  if c.res < 0 then c.requestId.bind fun id => l.accepted[id]?.map fun a => a.request.line else none

theorem step_effect {p p' : Logging} {a : Action} (h : p.step a = .ok p') :
    p.loop.step a = .ok p'.loop ∧ ∃ lines, p.loop.logged a = .ok lines ∧ p'.lines = p.lines ++ lines := by
  unfold step at h
  split at h
  · cases h
  · cases h
  · rename_i lines loop hlines hloop
    cases h
    exact ⟨hloop, lines, hlines, rfl⟩

theorem loop_run {n : Nat} {p : Logging} (h : Run step Subscribed (new n) p) :
    Run EventLoop.step EventLoop.Subscribed (.new n 0) p.loop := by
  refine Run.simulate (·.loop) (fun p a p' _ hc hs => ?_) h
  exact Run.refl.step (a := a) hc (step_effect hs).1

section Logged
open EventLoop
variable {n : Nat} {l : EventLoop} (h : Run EventLoop.step EventLoop.Subscribed (.new n 0) l)
include h

/-- The line of a completion is made from what was accepted with its request,
which is older than the completion. -/
theorem failure_mono {l' : EventLoop} {a : Action} (he : Effect l a l') {c : Cqe} (hc : c ∈ l.ring.posted) :
    failure l' c = failure l c := by
  obtain ⟨id, ho⟩ := onlyRequests_run h c hc
  obtain ⟨x, hx, -⟩ := (reach_traced h.any).completions c hc id ho
  simp only [failure, Cqe.requestId, ho, Option.bind_some, hx, accepted_mono he hx]

/-- The completion that `next` looks at still has its request's block, so the
line names that request. -/
theorem logged_next {c : Cqe} (hc : l.nextCompletion = some c) : l.logged .next = .ok (failure l c).toList := by
  obtain ⟨-, hfront⟩ := nextCompletion_front hc
  obtain ⟨id, a, ho, ha, hne, hfind⟩ :=
    (subscribed_intact h).block (reach_traced h.any) (subscribed_cancels h) hfront
  obtain ⟨s, hs⟩ := accepted_subscribed h a (List.mem_of_getElem? ha)
  have hz := reach_sized h.any
  have hid : a.request.op = .readMultishot → c.bufferId < l.bufferRing.buffers.length :=
    fun _ => hz.buffers ▸ hz.ids c (List.mem_of_getElem? hfront)
  obtain ⟨e, hcall⟩ := handlerFor_calls hs hid
  have hevent := (handlerFor_subscriber hcall).2
  have hline : l.logIssuingRequest c = .ok a.request.line := by
    simp [logIssuingRequest, RequestPool.read, hne, hfind, blockOf]
  simp only [logged, hc, dispatch_eq hne hfind, hcall]
  by_cases hres : c.res < 0
  · rw [if_pos hres] at hevent
    subst hevent
    simp [hline, failure, hres, Cqe.requestId, ho, ha]
  · rw [if_neg hres] at hevent
    cases e with
    | error code => cases a.request.op <;> cases hevent
    | _ => simp [failure, hres]

end Logged

section Step
open EventLoop
variable {l l' : EventLoop} {a : Action}

/-- Nothing else writes. -/
theorem logged_nothing (ha : a = .next → l.nextCompletion = none) : l.logged a = .ok [] := by
  cases a with
  | next => simp only [logged, ha rfl]
  | _ => rfl

/-- An action dispatches the completion that `next` looks at, or none. -/
theorem dispatched_step (hp : Position l) (he : Effect l a l') :
    (∃ c, a = .next ∧ l.nextCompletion = some c ∧ l'.dispatched = l.dispatched + 1) ∨
      (a = .next → l.nextCompletion = none) ∧ l'.dispatched = l.dispatched := by
  rcases invocations_step hp he with ⟨hinv, hdis⟩ | ⟨processed, c, d, rfl, hph, -, hc, -, hdis, -⟩
  · refine .inr ⟨?_, hdis⟩
    rintro rfl
    cases hn : l.nextCompletion with
    | none => rfl
    | some c =>
      obtain ⟨d, -, -, -, hinv', -⟩ := next_step he hn
      rw [hinv] at hinv'
      exact absurd hinv' (by simp)
  · exact .inl ⟨c, rfl, by simp only [nextCompletion, hph, hc], hdis⟩

/-- Completions stay as they were posted. -/
theorem posted_take (he : Effect l a l') {k : Nat} (hk : k ≤ l.ring.posted.length) :
    l'.ring.posted.take k = l.ring.posted.take k := by
  have hpost := posted_step he
  cases a with
  | post i res flags =>
    obtain ⟨e, -, hpost⟩ := hpost
    rw [hpost, List.take_append_of_le_length hk]
  | _ => exact congrArg (·.take k) hpost

end Step

section Runs
variable {n : Nat} {p : Logging} (h : Run step Subscribed (new n) p)
include h

theorem lines_run : p.lines = (p.loop.ring.posted.take p.loop.dispatched).filterMap (failure p.loop) := by
  refine Run.inv_of (fun p => Run EventLoop.step EventLoop.Subscribed (.new n 0) p.loop)
    (fun p => p.lines = (p.loop.ring.posted.take p.loop.dispatched).filterMap (failure p.loop))
    (fun _ hr => loop_run hr) (by simp [new]) (fun p a p' hr hi _ hs => ?_) h
  obtain ⟨hloop, lines, hlog, hlines⟩ := step_effect hs
  have he := EventLoop.step_effect hloop
  have hpos := EventLoop.reach_position hr.any
  have hold : (p'.loop.ring.posted.take p.loop.dispatched).filterMap (failure p'.loop) = p.lines := by
    rw [posted_take he (EventLoop.dispatched_le hpos), hi]
    exact List.filterMap_congr fun c hc => failure_mono hr he (List.mem_of_mem_take hc)
  rcases dispatched_step hpos he with ⟨c, rfl, hc, hdis⟩ | ⟨hno, hdis⟩
  · obtain ⟨hfin, hfront⟩ := EventLoop.nextCompletion_front hc
    rw [hfin] at hfront
    rw [logged_next hr hc] at hlog
    cases hlog
    rw [hlines, hdis, List.take_add_one, EventLoop.posted_mono he hfront, List.filterMap_append, hold,
      Option.toList_some, ← failure_mono hr he (List.mem_of_getElem? hfront)]
    cases hf : failure p'.loop c <;> simp [hf]
  · rw [logged_nothing hno] at hlog
    cases hlog
    rw [hlines, List.append_nil, hdis, hold]

theorem logged_ok (a : Action) : ∃ lines, p.loop.logged a = .ok lines := by
  cases hn : p.loop.nextCompletion with
  | none => exact ⟨[], logged_nothing fun _ => hn⟩
  | some c =>
    cases a with
    | next => exact ⟨_, logged_next (loop_run h) hn⟩
    | _ => exact ⟨[], rfl⟩

/-- In every run without cancels in which each request has a subscriber: there
is one line for each failed completion that was dispatched, in that order, and
it names the request the completion was for, however often its block has been
used before; and writing it never goes wrong. -/
theorem failures_logged : p.lines = (p.loop.ring.posted.take p.loop.dispatched).filterMap (failure p.loop) ∧
    ∀ a stop, p.step a = .error stop → p.loop.step a = .error stop := by
  refine ⟨lines_run h, fun a stop hs => ?_⟩
  obtain ⟨lines, hlog⟩ := logged_ok h a
  unfold step at hs
  rw [hlog] at hs
  split at hs
  · rename_i heq
    cases heq
  · rename_i hl _
    cases hs
    exact hl
  · cases hs

end Runs

/-- A write that works, and an accept and a read that fail, the read in the block the write had. -/
def reusedBlock : List Action :=
  [.add (.write 5 ⟨4096, 64⟩) (some 1) 100, .add (.accept 3) (some 2) 200, .submit 100 { taken := 2, ret := 2 },
    .post 1 64 0, .begin, .next, .callbackReturn, .next, .add (.multiShotRead 5 0) (some 1) 100,
    .submit 100 { taken := 1, ret := 1 }, .post 0 (-24) 0, .post 0 (-104) 0, .begin, .next, .callbackReturn, .next]

theorem failures_logged_reused :
    ∃ p, Run step Subscribed (new 2) p ∧ p.loop.dispatched = 3 ∧
      (p.loop.ring.posted.take p.loop.dispatched).filterMap (failure p.loop) =
        ["During handling of accept request for listening socket 3\n",
          "During handling of multi shot read request using buffer group ID 1 for socket 5\n"] := by
  obtain ⟨p, hr, hp⟩ := exists_run step (fun p a => decide (Subscribed p a)) (fun _ _ => of_decide_eq_true) (new 2)
    reusedBlock (fun p => p.loop.dispatched == 3 &&
      p.lines == ["During handling of accept request for listening socket 3\n",
        "During handling of multi shot read request using buffer group ID 1 for socket 5\n"]) (by decide +kernel)
  simp only [Bool.and_eq_true, beq_iff_eq] at hp
  refine ⟨p, hr, hp.1, ?_⟩
  rw [← (failures_logged hr).1, hp.2]

end Logging

end RingNet
