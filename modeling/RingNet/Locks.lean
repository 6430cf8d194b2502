import RingNet.Lib.Locks
import RingNet.Lib.Runs
import RingNet.Objects
/-!
# The mutexes of the loop thread

Each `EventHandler` has a mutex, held by `on` while a callback is registered
and by `handle` while one runs; the submission queue has one, held by `push`
and while the pending requests are prepared. This module follows the thread
that runs the loop: outside of callbacks it makes calls on the library and
submits, and for a completion it calls `handle`, whose callback makes calls on
the library again.

A callback makes calls, which may register callbacks in turn. Which calls it
makes depends on the event and on whatever else the program looks at, its
`World`. Callbacks are run by the events; what the events are is left open. The
connection made for an accept or connect callback is one of `connections`.
-/

namespace RingNet

open Lib

/-- An `EventHandler`: a `Subscriber`'s, or the one of the loop's `ErrorHandler`. -/
inductive HandlerId
  | subscriber (s : SubscriberId)
  | errorHandler
  deriving DecidableEq, Repr

inductive Mutex
  | handler (h : HandlerId)
  | pendingRequests
  deriving DecidableEq, Repr

/-- The event types of an `EventHandler`'s callbacks; `message` is the error handler's. -/
inductive EventType
  | error | accept | read | write | connect | message
  deriving DecidableEq, Repr

def Event.type : Event → EventType
  | .error _ => .error
  | .accept _ => .accept
  | .connect => .connect
  | .read .. => .read
  | .write .. => .write

namespace Invocation

/-- The `EventHandler` whose `handle` is called. -/
def handler : Invocation → HandlerId
  | .subscriber s _ => .subscriber s
  | .errorHandler _ => .errorHandler

def type : Invocation → EventType
  | .subscriber _ e => e.type
  | .errorHandler _ => .message

end Invocation

/-- A connection that has its `Subscriber`, i.e. has not been moved from. -/
structure LiveConnection where
  connection : Connection
  live : connection.subscriber.isSome

def LiveConnection.subscriber (c : LiveConnection) : SubscriberId := c.connection.subscriber.get c.live

/-- Any object of the program, by its number. -/
inductive ObjectRef
  | connection (i : Nat)
  | acceptor (i : Nat)
  | connector (i : Nat)
  deriving DecidableEq, Repr

/-- The public operations. A callback is the calls it makes. -/
inductive PublicCall (World : Type)
  | onRead (connection : Nat) (callback : Invocation → World → List (PublicCall World))
  | onWrite (connection : Nat) (callback : Invocation → World → List (PublicCall World))
  | onError (object : ObjectRef) (callback : Invocation → World → List (PublicCall World))
  | onNewConnection (acceptor : Nat) (callback : Invocation → World → List (PublicCall World))
  | onConnection (connector : Nat) (callback : Invocation → World → List (PublicCall World))
  | asyncRead (connection : Nat) (addr : Nat)
  | asyncWrite (connection : Nat) (sentBytes : Span) (addr : Nat)
  | listen (acceptor : Nat) (address : String) (port : UInt16) (outcome : SocketOutcome) (addr : Nat)
  | asyncConnect (connector : Nat) (address : String) (port : UInt16) (outcome : SocketOutcome) (addr : Nat)
  | add (request : Request) (subscriber : Option SubscriberId) (addr : Nat)
  | cancel (socketFd : Fd) (taken : Nat)
  | loopOnError (callback : Invocation → World → List (PublicCall World))
  | stop

abbrev Callback (World : Type) := Invocation → World → List (PublicCall World)

/-- What an `EventHandler` keeps for an event type: the callback, and the
connector whose `onConnection` wrapped it. -/
structure Registered (World : Type) where
  callback : Callback World
  connector : Option Nat := none

/-- The program: its loop, its objects, and their registered callbacks. -/
structure Program (World : Type) where
  loop : EventLoop
  connections : Nat → LiveConnection
  acceptors : Nat → Acceptor
  connectors : Nat → Connector
  handlers : HandlerId → EventType → Option (Registered World)
  shouldContinue : Bool := true

abbrev Locked (World : Type) := Critical Mutex Fault (Program World)

abbrev Thread (World : Type) := Holding Mutex (Program World)

variable {World : Type}

/-! ## The operations, with their locks -/

/-- `EventHandler::on`. -/
def EventHandler.on (h : HandlerId) (type : EventType) (f : Registered World) : Locked World :=
  lockGuard (.handler h) (act fun p => .ok { p with
    handlers := Function.update p.handlers h (Function.update (p.handlers h) type (some f)) })

/-- `EventLoop::add`, which locks in `SubmissionQueue::push`. -/
def EventLoop.addLocked (request : Request) (subscriber : Option SubscriberId) (addr : Nat) : Locked World :=
  lockGuard .pendingRequests (act fun p => .ok { p with loop := (p.loop.add request subscriber addr).2 })

namespace Program

/-- The `EventHandler` of an object. -/
def handlerOf (p : Program World) : ObjectRef → HandlerId
  | .connection i => .subscriber (p.connections i).subscriber
  | .acceptor i => .subscriber (p.acceptors i).subscriber
  | .connector i => .subscriber (p.connectors i).subscriber

def setAcceptor (p : Program World) (i : Nat) (a : Acceptor) : Program World :=
  { p with acceptors := Function.update p.acceptors i a }

def setConnector (p : Program World) (i : Nat) (c : Connector) : Program World :=
  { p with connectors := Function.update p.connectors i c }

/-- The callback that `onConnection` registers moves the socket into the connection it makes. -/
def moveSocket (p : Program World) : Option Nat → Program World
  | none => p
  | some i => p.setConnector i { p.connectors i with socket := {} }

/-- And afterwards it writes the status. -/
def setConnected (p : Program World) : Option Nat → Program World
  | none => p
  | some i => p.setConnector i { p.connectors i with connectionStatus := .CONNECTED }

end Program

namespace PublicCall

/-- What is left of `listen` and `asyncConnect` when the attempt is known. -/
def addRequest (subscriber : SubscriberId) (addr : Nat) : Option Request → Locked World
  | none => act .ok
  | some r => EventLoop.addLocked r (some subscriber) addr

def run : PublicCall World → Locked World
  | .onRead i f => fun t => EventHandler.on (t.state.handlerOf (.connection i)) .read { callback := f } t
  | .onWrite i f => fun t => EventHandler.on (t.state.handlerOf (.connection i)) .write { callback := f } t
  | .onError o f => fun t => EventHandler.on (t.state.handlerOf o) .error { callback := f } t
  | .onNewConnection i f => fun t => EventHandler.on (t.state.handlerOf (.acceptor i)) .accept { callback := f } t
  | .onConnection i f => fun t =>
    EventHandler.on (t.state.handlerOf (.connector i)) .connect { callback := f, connector := some i } t
  | .asyncRead i addr => fun t =>
    let c := (t.state.connections i).connection
    EventLoop.addLocked c.readRequest c.subscriber addr t
  | .asyncWrite i sentBytes addr => fun t =>
    let c := (t.state.connections i).connection
    EventLoop.addLocked (c.writeRequest sentBytes) c.subscriber addr t
  | .listen i address port outcome addr => fun t =>
    let a := (t.state.acceptors i).listen address port outcome
    addRequest (t.state.acceptors i).subscriber addr a.request { t with state := t.state.setAcceptor i a.object }
  | .asyncConnect i address port outcome addr => fun t =>
    let c := (t.state.connectors i).asyncConnect i address port outcome
    addRequest (t.state.connectors i).subscriber addr c.request { t with state := t.state.setConnector i c.object }
  | .add request subscriber addr => EventLoop.addLocked request subscriber addr
  | .cancel socketFd taken => act fun p => .ok { p with loop := p.loop.cancel socketFd taken }
  | .loopOnError f => EventHandler.on .errorHandler .message { callback := f }
  | .stop => act fun p => .ok { p with shouldContinue := false }

/-- The `EventHandler` the call registers a callback with. -/
def registersOn (p : Program World) : PublicCall World → Option HandlerId
  | .onRead i _ | .onWrite i _ => some (p.handlerOf (.connection i))
  | .onError o _ => some (p.handlerOf o)
  | .onNewConnection i _ => some (p.handlerOf (.acceptor i))
  | .onConnection i _ => some (p.handlerOf (.connector i))
  | .loopOnError _ => some .errorHandler
  | _ => none

end PublicCall

/-- The calls made for an invocation, by the callback that is registered. -/
def Program.calls (p : Program World) (v : Invocation) (world : World) : List (PublicCall World) :=
  match p.handlers v.handler v.type with
  | none => []
  | some f => f.callback v world

/-- What is done for an event, around the calls of the callback. -/
def Registered.run (f : Registered World) (v : Invocation) (world : World) : Locked World :=
  inOrder ([act fun p => .ok (p.moveSocket f.connector)] ++ (f.callback v world).map PublicCall.run ++
    [act fun p => .ok (p.setConnected f.connector)])

/-- The callback for the event, if there is one. -/
def EventHandler.invoke (v : Invocation) (world : World) : Locked World := fun t =>
  match t.state.handlers v.handler v.type with
  | none => .ok t
  | some f => f.run v world t

/-- `EventHandler::handle`: the mutex is held while the callback runs. -/
def EventHandler.handle (v : Invocation) (world : World) : Locked World :=
  lockGuard (.handler v.handler) (invoke v world)

/-- `submit`: the pending requests are prepared under their mutex. The rest of
it, which locks nothing, is done in the same step. -/
def SubmissionQueue.submitLocked (timeout : Int) (reply : SubmitReply) : Locked World :=
  lockGuard .pendingRequests (act fun p =>
    match p.loop.submissionQueue.submit timeout reply with
    | .error f => .error f
    | .ok (submitStatus, submissionQueue) => .ok { p with loop := { p.loop with submissionQueue, submitStatus } })

/-- What the thread that runs the loop does. -/
inductive ThreadStep (World : Type)
  | call (c : PublicCall World)
  | submit (timeout : Int) (reply : SubmitReply)
  | dispatch (v : Invocation) (world : World)

def ThreadStep.run (t : Thread World) : ThreadStep World → Except (Halt Mutex Fault) (Thread World)
  | .call c => c.run t
  | .submit timeout reply => SubmissionQueue.submitLocked timeout reply t
  | .dispatch v world => EventHandler.handle v world t

/-- The thread before it does anything. -/
def Program.thread (p : Program World) : Thread World := ⟨[], p⟩

/-! ## What the operations do to the locks -/

/-- An acceptor that keeps its `Subscriber` may be replaced. -/
theorem Program.handlerOf_setAcceptor (p : Program World) (i : Nat) (a : Acceptor)
    (ha : a.subscriber = (p.acceptors i).subscriber) : (p.setAcceptor i a).handlerOf = p.handlerOf := by
  funext o
  cases o with
  | acceptor j =>
    unfold handlerOf setAcceptor
    dsimp only
    rw [Function.apply_update (fun _ => Acceptor.subscriber), ha, Function.update_eq_self]
  | connection j => rfl
  | connector j => rfl

theorem Program.handlerOf_setConnector (p : Program World) (i : Nat) (c : Connector)
    (hc : c.subscriber = (p.connectors i).subscriber) : (p.setConnector i c).handlerOf = p.handlerOf := by
  funext o
  cases o with
  | connector j =>
    unfold handlerOf setConnector
    dsimp only
    rw [Function.apply_update (fun _ => Connector.subscriber), hc, Function.update_eq_self]
  | connection j => rfl
  | acceptor j => rfl

theorem Program.handlerOf_moveSocket (p : Program World) (connector : Option Nat) :
    (p.moveSocket connector).handlerOf = p.handlerOf := by
  cases connector with
  | none => rfl
  | some i => exact p.handlerOf_setConnector i { p.connectors i with socket := {} } rfl

theorem Program.handlerOf_setConnected (p : Program World) (connector : Option Nat) :
    (p.setConnected connector).handlerOf = p.handlerOf := by
  cases connector with
  | none => rfl
  | some i => exact p.handlerOf_setConnector i { p.connectors i with connectionStatus := .CONNECTED } rfl

/-- No operation gives an object another `EventHandler`. -/
abbrev KeepsHandlers (body : Locked World) : Prop := Keeps Program.handlerOf body

theorem keeps_update {f : Program World → Program World} (h : ∀ p, (f p).handlerOf = p.handlerOf) :
    KeepsHandlers (act fun p => .ok (f p)) := by
  refine keeps_act fun p p' hp => ?_
  cases hp
  exact h p

theorem keeps_on (h : HandlerId) (type : EventType) (f : Registered World) :
    KeepsHandlers (EventHandler.on h type f) := by
  unfold EventHandler.on
  apply Keeps.lockGuard
  exact keeps_update fun p => rfl

theorem keeps_addLocked (request : Request) (subscriber : Option SubscriberId) (addr : Nat) :
    KeepsHandlers (EventLoop.addLocked request subscriber addr : Locked World) := by
  unfold EventLoop.addLocked
  apply Keeps.lockGuard
  exact keeps_update fun p => rfl

theorem keeps_addRequest (subscriber : SubscriberId) (addr : Nat) (r : Option Request) :
    KeepsHandlers (PublicCall.addRequest subscriber addr r : Locked World) := by
  cases r with
  | none => exact keeps_update fun p => rfl
  | some r => exact keeps_addLocked r (some subscriber) addr

theorem keeps_call (c : PublicCall World) : KeepsHandlers c.run := by
  intro t t' ht
  cases c with
  | onRead i f | onWrite i f | onError o f | onNewConnection i f | onConnection i f | loopOnError f =>
    exact keeps_on _ _ _ t t' ht
  | asyncRead i addr | asyncWrite i sentBytes addr | add request subscriber addr => exact keeps_addLocked _ _ _ t t' ht
  | listen i address port outcome addr =>
    obtain ⟨hh, ho⟩ := keeps_addRequest _ _ _ _ _ ht
    refine ⟨hh, ho.trans (Program.handlerOf_setAcceptor _ _ _ ?_)⟩
    exact Acceptor.listen_subscriber _ address port outcome
  | asyncConnect i address port outcome addr =>
    obtain ⟨hh, ho⟩ := keeps_addRequest _ _ _ _ _ ht
    refine ⟨hh, ho.trans (Program.handlerOf_setConnector _ _ _ ?_)⟩
    exact Connector.asyncConnect_subscriber _ i address port outcome
  | cancel socketFd taken | stop =>
    cases ht
    exact ⟨rfl, rfl⟩

theorem registersOn_congr {p p' : Program World} (h : p'.handlerOf = p.handlerOf) (c : PublicCall World) :
    c.registersOn p' = c.registersOn p := by
  cases c <;> simp only [PublicCall.registersOn, h]

/-! ## When they complete -/

theorem act_completes (f : Program World → Program World) (t : Thread World) :
    Completes (act fun p => .ok (f p) : Locked World) t :=
  ⟨⟨t.held, f t.state⟩, rfl⟩

theorem addLocked_completes (request : Request) (subscriber : Option SubscriberId) (addr : Nat) {t : Thread World}
    (hp : .pendingRequests ∉ t.held) : Completes (EventLoop.addLocked request subscriber addr) t :=
  lockGuard_completes.2 ⟨hp, act_completes _ _⟩

theorem addRequest_completes (subscriber : SubscriberId) (addr : Nat) (r : Option Request) {t : Thread World}
    (hp : .pendingRequests ∉ t.held) : Completes (PublicCall.addRequest subscriber addr r) t := by
  cases r with
  | none => exact act_completes id t
  | some r => exact addLocked_completes r (some subscriber) addr hp

/-- A call made by a thread that is not preparing requests completes unless it
registers a callback while that `EventHandler` is held. -/
theorem call_completes (c : PublicCall World) {t : Thread World} (hp : .pendingRequests ∉ t.held) :
    Completes c.run t ↔ ∀ h, c.registersOn t.state = some h → .handler h ∉ t.held := by
  have hon : ∀ h type f, Completes (EventHandler.on h type f) t ↔ .handler h ∉ t.held := by
    intro h type f
    exact lockGuard_completes.trans (and_iff_left (act_completes _ _))
  cases c with
  | onRead i f | onWrite i f | onError o f | onNewConnection i f | onConnection i f | loopOnError f =>
    simp only [PublicCall.registersOn, Option.some.injEq, forall_eq']
    exact hon _ _ _
  | asyncRead i addr | asyncWrite i sentBytes addr | add request subscriber addr =>
    exact iff_of_true (addLocked_completes _ _ _ hp) nofun
  | listen i address port outcome addr | asyncConnect i address port outcome addr =>
    exact iff_of_true (addRequest_completes _ _ _ hp) nofun
  | cancel socketFd taken | stop => exact iff_of_true ⟨_, rfl⟩ nofun

/-! ## Callbacks -/

/-- The calls of a callback complete, under the mutex `handle` holds, if and
only if none of them registers with the same `EventHandler`. -/
theorem calls_complete (h : HandlerId) (cs : List (PublicCall World)) (t : Thread World) (ht : t.held = [.handler h]) :
    Completes (inOrder (cs.map PublicCall.run)) t ↔ ∀ c ∈ cs, c.registersOn t.state ≠ some h := by
  refine inOrder_completes (fun t : Thread World => t.held = [.handler h])
    (fun t (c : PublicCall World) => c.registersOn t.state ≠ some h) ?_ ?_ ht
  · intro t ht c
    have hp : .pendingRequests ∉ t.held := by simp [ht]
    rw [call_completes c hp, ht]
    constructor
    · intro hall hc
      exact hall h hc (List.mem_singleton.2 rfl)
    · rintro hne h' hc hm
      cases List.mem_singleton.1 hm
      exact hne hc
  · intro t t' c ht hc
    obtain ⟨hh, ho⟩ := keeps_call c t t' hc
    exact ⟨hh.trans ht, fun b => by rw [registersOn_congr ho]⟩

theorem registered_completes (f : Registered World) (v : Invocation) (world : World) (t : Thread World)
    (ht : t.held = [.handler v.handler]) :
    Completes (f.run v world) t ↔ ∀ c ∈ f.callback v world, c.registersOn t.state ≠ some v.handler := by
  -- the calls run after `moveSocket`, which leaves every object its handler
  have hc := calls_complete v.handler (f.callback v world) ⟨t.held, t.state.moveSocket f.connector⟩ ht
  simp only [registersOn_congr (t.state.handlerOf_moveSocket f.connector)] at hc
  rw [← hc]
  constructor
  · rintro ⟨t', h⟩
    obtain ⟨t₁, h₁, -⟩ := inOrder_append.1 h
    exact ⟨t₁, h₁⟩
  · rintro ⟨t₁, h₁⟩
    exact ⟨_, inOrder_append.2 ⟨t₁, h₁, rfl⟩⟩

theorem invoke_completes (v : Invocation) (world : World) (t : Thread World) (ht : t.held = [.handler v.handler]) :
    Completes (EventHandler.invoke v world) t ↔ ∀ c ∈ t.state.calls v world, c.registersOn t.state ≠ some v.handler := by
  unfold Completes EventHandler.invoke Program.calls
  cases t.state.handlers v.handler v.type with
  | none => exact iff_of_true ⟨t, rfl⟩ nofun
  | some f => exact registered_completes f v world t ht

theorem handle_completes (v : Invocation) (world : World) {t : Thread World} (ht : t.held = []) :
    Completes (EventHandler.handle v world) t ↔ ∀ c ∈ t.state.calls v world, c.registersOn t.state ≠ some v.handler := by
  refine lockGuard_completes.trans ?_
  rw [ht, and_iff_right List.not_mem_nil]
  exact invoke_completes v world ⟨[.handler v.handler], t.state⟩ rfl

/-! ## Every run -/

theorem keeps_registered (f : Registered World) (v : Invocation) (world : World) : KeepsHandlers (f.run v world) := by
  refine keeps_inOrder fun body hb => ?_
  simp only [List.mem_append, List.mem_singleton, List.mem_map] at hb
  rcases hb with (rfl | ⟨c, -, rfl⟩) | rfl
  · exact keeps_update fun p => p.handlerOf_moveSocket _
  · exact keeps_call c
  · exact keeps_update fun p => p.handlerOf_setConnected _

theorem keeps_invoke (v : Invocation) (world : World) : KeepsHandlers (EventHandler.invoke v world) := by
  intro t t' h
  unfold EventHandler.invoke at h
  split at h
  · cases h
    exact ⟨rfl, rfl⟩
  · exact keeps_registered _ v world t t' h

theorem keeps_submit (timeout : Int) (reply : SubmitReply) :
    KeepsHandlers (SubmissionQueue.submitLocked timeout reply : Locked World) := by
  unfold SubmissionQueue.submitLocked
  refine Keeps.lockGuard (keeps_act fun p p' hp => ?_) _
  split at hp
  · cases hp
  · cases hp
    rfl

theorem keeps_step (a : ThreadStep World) : KeepsHandlers fun t => ThreadStep.run t a := by
  cases a with
  | call c => exact keeps_call c
  | submit timeout reply => exact keeps_submit timeout reply
  | dispatch v world => exact (keeps_invoke v world).lockGuard _

/-- Between two steps the thread holds no mutex. -/
theorem Program.held_empty {p : Program World} {t : Thread World} (h : Run ThreadStep.run anyAction p.thread t) :
    t.held = [] := by
  refine h.inv (fun t => t.held = []) rfl fun t a t' ht _ hs => ?_
  exact (keeps_step a t t' hs).1.trans ht

/-- No mutex is locked by the thread that holds it, and dispatching comes to its end. -/
structure EventHandler.Dispatches (v : Invocation) (world : World) (t : Thread World) : Prop where
  locks : ∀ m, EventHandler.handle v world t ≠ .error (.deadlock m)
  completes : Completes (EventHandler.handle v world) t

/-- Whatever ran before, and whatever the callback does, an event is dispatched
exactly if the callback registers nothing with the `EventHandler` that runs it. -/
theorem EventHandler.dispatches_iff {p : Program World} {t : Thread World}
    (h : Run ThreadStep.run anyAction p.thread t) (v : Invocation) (world : World) :
    EventHandler.Dispatches v world t ↔ ∀ c ∈ t.state.calls v world, c.registersOn t.state ≠ some v.handler := by
  rw [← handle_completes v world (Program.held_empty h)]
  refine ⟨Dispatches.completes, fun hc => ⟨fun m hm => ?_, hc⟩⟩
  obtain ⟨t', ht⟩ := hc
  rw [hm] at ht
  cases ht

/-- A program that has registered nothing; the objects of number `i` have the
subscribers `3 i`, `3 i + 1` and `3 i + 2`. -/
def Program.started : Program Unit where
  loop := EventLoop.new 4 0
  connections i := ⟨⟨⟨i⟩, i, some (3 * i)⟩, rfl⟩
  acceptors i := { subscriber := 3 * i + 1 }
  connectors i := { subscriber := 3 * i + 2 }
  handlers _ _ := none

/-- The same after `onRead` on connection 0, with a callback that makes the calls `cs`. -/
def Program.reading (cs : List (PublicCall Unit)) : Thread Unit where
  held := []
  state :=
    let h := .subscriber 0
    { started with
      handlers := Function.update started.handlers h
        (Function.update (started.handlers h) .read (some { callback := fun _ _ => cs })) }

theorem Program.reading_run (cs : List (PublicCall Unit)) :
    Run ThreadStep.run anyAction started.thread (reading cs) :=
  .step .refl (a := .call (.onRead 0 fun _ _ => cs)) trivial rfl

/-- A callback that answers what it read, and registers with another connection, is dispatched. -/
theorem EventHandler.dispatches_iff_answer :
    EventHandler.Dispatches (.subscriber 0 (.read 0 ⟨0, 8⟩)) ()
      (Program.reading [.asyncWrite 0 ⟨0, 8⟩ 0, .onRead 1 fun _ _ => []]) := by
  refine (EventHandler.dispatches_iff (Program.reading_run _) _ ()).2 fun c hc => ?_
  change c ∈ [.asyncWrite 0 ⟨0, 8⟩ 0, .onRead 1 fun _ _ => []] at hc
  rcases List.mem_pair.1 hc with rfl | rfl <;> decide

/-- A callback of connection 0 that replaces itself waits for the mutex under which it runs. -/
theorem EventHandler.own_handler_replaced :
    Run ThreadStep.run anyAction Program.started.thread (Program.reading [.onRead 0 fun _ _ => []]) ∧
      EventHandler.handle (.subscriber 0 (.read 0 ⟨0, 8⟩)) () (Program.reading [.onRead 0 fun _ _ => []]) =
        .error (.deadlock (.handler (.subscriber 0))) ∧
      ¬ EventHandler.Dispatches (.subscriber 0 (.read 0 ⟨0, 8⟩)) () (Program.reading [.onRead 0 fun _ _ => []]) :=
  ⟨Program.reading_run _, rfl, fun h => h.locks (.handler (.subscriber 0)) rfl⟩

end RingNet
