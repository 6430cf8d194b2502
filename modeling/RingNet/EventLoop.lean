import RingNet.Lib.Runs
import RingNet.BufferRing
import RingNet.SubmissionQueue
/-!
# The event loop

`eventLoop.hpp` and `.cpp`, as a machine whose actions are the calls a
program makes (`add`, `cancel`), the loop thread's own progress (`submit` and
the iteration of `forEachCompletion`), and the kernel's completions (`post`).

`forEachCompletion` is cut where a handler runs. `next` looks at the next
completion and calls the handler for it; `callbackReturn` is the rest of that
iteration, after the handler has returned. In between, and everywhere else,
any other action may come: a callback's own calls, calls from other places of
the program, and completions posted meanwhile. `submit`, `begin` and
`checkStatus` are the loop thread's and happen outside the iteration, in any
order.

Assertions are compiled out (`NDEBUG`), and the text `logIssuingRequest`
prints is not modelled.

`invocations` is for the proofs only: the handler invoked for each completion.
-/

namespace RingNet

open Lib

/-- A handler that was called: a subscriber's for an event, or the loop's own
error handler. -/
inductive Invocation
  | subscriber (s : SubscriberId) (e : Event)
  | errorHandler (message : Message)
  deriving DecidableEq, Repr

/-- An invocation, for which completion it was made, and whose header was read
(if one was). -/
structure Invoked where
  completion : Nat
  owner : Option Owner
  request : Option Nat
  what : Invocation
  deriving DecidableEq, Repr

/-- Where the loop thread is: outside `forEachCompletion`, at its loop test
(with its local `head` and `processed`), or inside a handler. -/
inductive Phase
  | idle
  | iterating (head processed : Nat)
  | handling (head processed : Nat) (cqe : Cqe) (releaseBuffer : Bool)
  deriving DecidableEq, Repr

structure EventLoop where
  submissionQueue : SubmissionQueue
  bufferRing : BufferRing
  phase : Phase := .idle
  submitStatus : SubmitStatus := 0
  loopErrors : List Message := []
  invocations : List Invoked := []

/-- `std::array<Buffer, 2048> buffers` of 1024 bytes each, with addresses
relative to the array's. -/
def BUFFERS : List Span := (List.range 2048).map fun i => ⟨1024 * i, 1024⟩

/-- Outcome of the handler lookup: the request read, the call to make, and
whether its buffer is given back afterwards. -/
structure Dispatched where
  request : Option Nat
  what : Invocation
  releaseBuffer : Bool := false
  deriving DecidableEq, Repr

inductive Action
  | add (request : Request) (subscriber : Option SubscriberId) (addr : Nat)
  | cancel (socketFd : Fd) (taken : Nat)
  | submit (timeout : Int) (reply : SubmitReply)
  | begin
  | next
  | callbackReturn
  | checkStatus
  | post (i : Nat) (res : Int) (flags : UInt32)
  deriving DecidableEq, Repr

namespace EventLoop

abbrev ring (l : EventLoop) : IoUring := l.submissionQueue.ring
abbrev pool (l : EventLoop) : List Block := l.submissionQueue.requestPool
abbrev pending (l : EventLoop) : List Pending := l.submissionQueue.pendingRequests.toList
abbrev accepted (l : EventLoop) : List Accepted := l.submissionQueue.accepted

/-- The constructor, for a ring of `ringEntries` slots; `status` is what
setting up the buffer ring reports, 0 if it succeeds. -/
def new (ringEntries : Nat) (status : Int) : EventLoop :=
  let s := BufferRing.setupBuffers {} BUFFERS status
  { submissionQueue := { ring := { ringEntries } }
    bufferRing := s.2
    loopErrors := if s.1.success then [] else [s.1.message] }

def add (l : EventLoop) (request : Request) (subscriber : Option SubscriberId) (addr : Nat) :
    AddRequestStatus × EventLoop :=
  let request := match request with
    | .multiShotRead fd _ => .multiShotRead fd BUFFER_GROUP_ID
    | r => r
  (.ok, { l with submissionQueue := l.submissionQueue.push request subscriber addr })

def cancel (l : EventLoop) (socketFd : Fd) (taken : Nat) : EventLoop :=
  { l with submissionQueue := l.submissionQueue.cancel socketFd [taken] }

/-- The part of `run`'s handler before the subscriber is called. -/
def dispatch (l : EventLoop) (cqe : Cqe) : Except Fault Dispatched :=
  if cqe.userData = 0 then
    .ok ⟨none, .errorHandler (.text "Error: Malformed completion queue entry"), false⟩
  else
    match RequestPool.read l.pool cqe.userData with
    | .error f => .error f
    | .ok b =>
      if !b.header.valid then .ok ⟨some b.id, .errorHandler (.text "Error: Invalid request header"), false⟩
      else
        match b.header.userData with
        | none => .ok ⟨some b.id, .errorHandler (.text "Error: No subscriber"), false⟩
        | some s =>
          if cqe.res < 0 then .ok ⟨some b.id, .subscriber s (.error (-cqe.res)), false⟩
          else
            match b.header.op, b.request with
            | .accept, _ => .ok ⟨some b.id, .subscriber s (.accept cqe.res), false⟩
            | .read, .read fd buf =>
              .ok ⟨some b.id, .subscriber s (.read fd (buf.subspan cqe.res.toNat)), false⟩
            | .readMultishot, .multiShotRead fd _ =>
              match l.bufferRing.get cqe with
              | none => .ok ⟨some b.id, .errorHandler (.text "Error: Invalid buffer ID"), false⟩
              | some view => .ok ⟨some b.id, .subscriber s (.read fd (view.subspan cqe.res.toNat)), true⟩
            | .write, .write _ bytes => .ok ⟨some b.id, .subscriber s (.write cqe.res bytes), false⟩
            | .connect, _ => .ok ⟨some b.id, .subscriber s .connect, false⟩
            | _, _ => .error .wrongType

/-- The rest of the iteration: `run`'s handler after the subscriber, then `release`. -/
def afterHandler (l : EventLoop) (cqe : Cqe) (releaseBuffer : Bool) : Except Fault EventLoop :=
  match (if releaseBuffer then l.bufferRing.release cqe else .ok l.bufferRing) with
  | .error f => .error f
  | .ok bufferRing =>
    match l.submissionQueue.release cqe with
    | .error f => .error f
    | .ok submissionQueue => .ok { l with bufferRing, submissionQueue }

/-- The end of an iteration of `run`: report what `submit` returned. -/
def checkStatus (l : EventLoop) : EventLoop :=
  if SubmissionQueue.shouldContinueSubmitting l.submitStatus then l
  else if l.submitStatus < 0 then { l with loopErrors := l.loopErrors ++ [.strerror (-l.submitStatus)] }
  else l

/-- The kernel posts a completion of the `i`-th entry it holds. Only multi-shot
entries complete more than once. `IORING_CQE_F_BUFFER` says the completion
took the buffer at the head of the buffer ring, and the upper half of the
flags is its id; without it the upper half is zero. -/
def post (l : EventLoop) (i : Nat) (res : Int) (flags : UInt32) : Option EventLoop :=
  match l.ring.inflight[i]? with
  | none => none
  | some e =>
    let c : Cqe := ⟨e.userData, res, flags, e.owner⟩
    let q := { l.submissionQueue with ring := l.ring.post i e res flags }
    if c.hasMore && !e.prep.multishot then none
    else if c.hasBuffer then
      match l.bufferRing.select with
      | none => none
      | some (bid, b) =>
        if e.prep.selectsBuffer && c.bufferId == bid.toNat then some { l with submissionQueue := q, bufferRing := b }
        else none
    else if c.bufferId = 0 then some { l with submissionQueue := q }
    else none

def step (l : EventLoop) : Action → Except Stop EventLoop
  | .add request subscriber addr =>
    if RequestPool.free l.pool addr then .ok (l.add request subscriber addr).2 else .error .disabled
  | .cancel socketFd taken => .ok (l.cancel socketFd taken)
  | .submit timeout reply =>
    if l.phase = .idle then
      match l.submissionQueue.submit timeout reply with
      | .error f => .error (.fault f)
      | .ok (submitStatus, submissionQueue) => .ok { l with submissionQueue, submitStatus }
    else .error .disabled
  | .begin =>
    if l.phase = .idle then .ok { l with phase := .iterating l.ring.cqHead 0 } else .error .disabled
  | .next =>
    match l.phase with
    | .iterating head processed =>
      match l.ring.posted[head]? with
      | none =>
        -- the queue's own head moves once, by the count kept beside it
        .ok { l with
          submissionQueue := { l.submissionQueue with
            ring := if processed ≠ 0 then l.ring.cqAdvance processed else l.ring }
          phase := .idle }
      | some cqe =>
        match l.dispatch cqe with
        | .error f => .error (.fault f)
        | .ok d =>
          .ok { l with
            phase := .handling head (processed + 1) cqe d.releaseBuffer
            invocations := l.invocations ++ [⟨head, cqe.owner, d.request, d.what⟩] }
    | _ => .error .disabled
  | .callbackReturn =>
    match l.phase with
    | .handling head processed cqe releaseBuffer =>
      match l.afterHandler cqe releaseBuffer with
      | .error f => .error (.fault f)
      | .ok l => .ok { l with phase := .iterating (head + 1) processed }
    | _ => .error .disabled
  | .checkStatus => if l.phase = .idle then .ok l.checkStatus else .error .disabled
  | .post i res flags =>
    match l.post i res flags with
    | some l => .ok l
    | none => .error .disabled

/-- How many completions have been processed to the end. -/
def finished (l : EventLoop) : Nat :=
  match l.phase with
  | .idle => l.ring.cqHead
  | .iterating head _ => head
  | .handling head _ _ _ => head

/-- How many completions a handler has been called for. -/
def dispatched (l : EventLoop) : Nat :=
  match l.phase with
  | .idle => l.ring.cqHead
  | .iterating head _ => head
  | .handling head _ _ _ => head + 1

/-- The completions whose processing has not finished, the one being handled included. -/
def unfinished (l : EventLoop) : List Cqe := l.ring.posted.drop l.finished

/-- The completion `next` looks at, if any. -/
def nextCompletion (l : EventLoop) : Option Cqe :=
  match l.phase with
  | .iterating head _ => l.ring.posted[head]?
  | _ => none

/-- The handler call in progress. -/
def running (l : EventLoop) : Option Invocation :=
  match l.phase with
  | .handling .. => l.invocations.getLast?.map (·.what)
  | _ => none

/-! ## What an action does -/

/-- The effect of each action the loop accepts. -/
inductive Effect (l : EventLoop) : Action → EventLoop → Prop
  -- the program: any time
  | add {request subscriber addr} : RequestPool.free l.pool addr = true →
      Effect l (.add request subscriber addr) (l.add request subscriber addr).2
  | cancel {fd taken} : Effect l (.cancel fd taken) (l.cancel fd taken)
  -- the loop thread: `submit`, then the iteration
  | submit {timeout reply st q} : l.phase = .idle → l.submissionQueue.submit timeout reply = .ok (st, q) →
      Effect l (.submit timeout reply) { l with submissionQueue := q, submitStatus := st }
  | begin : l.phase = .idle → Effect l .begin { l with phase := .iterating l.ring.cqHead 0 }
  | finish {head processed} : l.phase = .iterating head processed → l.ring.posted[head]? = none →
      Effect l .next { l with
        submissionQueue := { l.submissionQueue with ring := l.ring.cqAdvance processed }
        phase := .idle }
  | dispatch {head processed cqe d} : l.phase = .iterating head processed → l.ring.posted[head]? = some cqe →
      l.dispatch cqe = .ok d →
      Effect l .next { l with
        phase := .handling head (processed + 1) cqe d.releaseBuffer
        invocations := l.invocations ++ [⟨head, cqe.owner, d.request, d.what⟩] }
  | callbackReturn {head processed cqe rb b q} : l.phase = .handling head processed cqe rb →
      (if rb then l.bufferRing.release cqe else .ok l.bufferRing) = .ok b →
      l.submissionQueue.release cqe = .ok q →
      Effect l .callbackReturn { l with
        bufferRing := b, submissionQueue := q, phase := .iterating (head + 1) processed }
  | checkStatus : l.phase = .idle → Effect l .checkStatus l.checkStatus
  -- the kernel: only a multi-shot entry goes on, and a buffer is the next one available
  | post {i res flags e b} : l.ring.inflight[i]? = some e →
      ((⟨e.userData, res, flags, e.owner⟩ : Cqe).hasMore = true → e.prep.multishot = true) →
      ((⟨e.userData, res, flags, e.owner⟩ : Cqe).hasBuffer = false ∧
          (⟨e.userData, res, flags, e.owner⟩ : Cqe).bufferId = 0 ∧ b = l.bufferRing ∨
        (⟨e.userData, res, flags, e.owner⟩ : Cqe).hasBuffer = true ∧ e.prep.selectsBuffer = true ∧
          ∃ bid, l.bufferRing.select = some (bid, b) ∧
            (⟨e.userData, res, flags, e.owner⟩ : Cqe).bufferId = bid.toNat) →
      Effect l (.post i res flags) { l with
        submissionQueue := { l.submissionQueue with ring := l.ring.post i e res flags }
        bufferRing := b }

theorem post_effect {l l' : EventLoop} {i : Nat} {res : Int} {flags : UInt32} (h : l.post i res flags = some l') :
    Effect l (.post i res flags) l' := by
  unfold post at h
  split at h
  · cases h
  · rename_i e he
    dsimp only at h
    split at h
    · cases h
    · rename_i hmore
      have hmore' : (⟨e.userData, res, flags, e.owner⟩ : Cqe).hasMore = true → e.prep.multishot = true := by
        intro hm
        simpa [hm] using hmore
      split at h
      · rename_i hbuf
        split at h
        · cases h
        · rename_i bid b hsel
          split at h
          · rename_i hid
            simp only [Bool.and_eq_true, beq_iff_eq] at hid
            cases h
            exact .post he hmore' (.inr ⟨hbuf, hid.1, bid, hsel, hid.2⟩)
          · cases h
      · rename_i hbuf
        split at h
        · rename_i hid
          cases h
          exact .post he hmore' (.inl ⟨by simpa using hbuf, hid, rfl⟩)
        · cases h

theorem afterHandler_ok {l l' : EventLoop} {cqe : Cqe} {rb : Bool} : l.afterHandler cqe rb = .ok l' ↔
    ∃ bufferRing submissionQueue, (if rb then l.bufferRing.release cqe else .ok l.bufferRing) = .ok bufferRing ∧
      l.submissionQueue.release cqe = .ok submissionQueue ∧ l' = { l with bufferRing, submissionQueue } := by
  unfold afterHandler
  constructor
  · intro h
    split at h
    · cases h
    · rename_i b hb
      split at h
      · cases h
      · rename_i q hq
        cases h
        exact ⟨b, q, hb, hq, rfl⟩
  · rintro ⟨b, q, hb, hq, rfl⟩
    rw [hb, hq]

theorem step_effect {l l' : EventLoop} {a : Action} (h : l.step a = .ok l') : Effect l a l' := by
  cases a with
  | add request subscriber addr =>
    simp only [step] at h
    split at h
    · rename_i hf
      cases h; exact .add hf
    · cases h
  | cancel fd taken => cases h; exact .cancel
  | submit timeout reply =>
    simp only [step] at h
    split at h
    · rename_i hi
      split at h
      · cases h
      · rename_i hs
        cases h; exact .submit hi hs
    · cases h
  | begin =>
    simp only [step] at h
    split at h
    · rename_i hi
      cases h; exact .begin hi
    · cases h
  | next =>
    simp only [step] at h
    split at h
    · rename_i head processed hp
      split at h
      · rename_i hn
        cases h
        have := Effect.finish hp hn
        by_cases h0 : processed = 0
        · subst h0
          simpa [IoUring.cqAdvance] using this
        · simpa [h0] using this
      · rename_i cqe hc
        split at h
        · cases h
        · rename_i hd
          cases h; exact .dispatch hp hc hd
    · cases h
  | callbackReturn =>
    simp only [step] at h
    split at h
    · rename_i head processed cqe rb hp
      split at h
      · cases h
      · rename_i l₁ hl
        obtain ⟨b, q, hb, hq, rfl⟩ := afterHandler_ok.1 hl
        cases h
        exact .callbackReturn hp hb hq
    · cases h
  | checkStatus =>
    simp only [step] at h
    split at h
    · rename_i hi
      cases h; exact .checkStatus hi
    · cases h
  | post i res flags =>
    simp only [step] at h
    split at h
    · rename_i hp
      cases h; exact post_effect hp
    · cases h

/-- Reporting an error is all `checkStatus` can do. -/
theorem checkStatus_same (l : EventLoop) : l.checkStatus = { l with loopErrors := l.checkStatus.loopErrors } := by
  unfold checkStatus
  split
  · rfl
  · split <;> rfl

/-- `cancel` queues one entry for itself, with what the slot's last user left
as its `user_data`, or finds no room. -/
theorem cancel_spec (l : EventLoop) (fd : Fd) (taken : Nat) :
    ∃ new, IoUring.Moves l.ring (l.cancel fd taken).ring new ∧
      (l.cancel fd taken).submissionQueue =
        { l.submissionQueue with ring := (l.cancel fd taken).ring, cancels := l.submissionQueue.cancels + 1 } ∧
      new = if l.ring.obtains taken then
          [⟨.cancelFd fd, l.ring.leftOver, some (.cancel l.submissionQueue.cancels)⟩] else [] := by
  obtain ⟨hq, ⟨ho, hm⟩ | ⟨ho, hm⟩⟩ := l.submissionQueue.cancel_cases fd [taken] <;>
    simp only [List.headD_cons] at ho
  · exact ⟨_, hm, hq, by rw [if_pos ho]⟩
  · exact ⟨_, hm, hq, by rw [if_neg (by rw [ho]; decide)]⟩

end EventLoop

end RingNet
