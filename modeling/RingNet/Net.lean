import RingNet.Lib.Owners
import RingNet.Ledger
import RingNet.Objects
/-!
# Programs over the loop

The system the library is part of: an event loop, the objects a program makes
of it, and the descriptor table of the operating system. A `Call` is an
operation of the program on one of its objects, made from wherever the program
is (outside the loop, or inside a callback), or a step of the loop and the
kernel. Objects are named by numbers; `Subscriber`s and sockets are numbered in
the order they are made, so that they can be told apart when an address or a
descriptor number is used again.

Descriptor numbers denote sockets through `sockets`. The kernel looks a number
up when it takes an entry.

`destroyed`, `requestSockets`, `cancelSockets`, `submissions` and `reads` are
for the proofs only: the `Subscriber`s that no longer exist, the socket each
request and each cancel was made for, each entry the kernel took with the
socket its descriptor denoted then, and the calls of `asyncRead`.
-/

namespace RingNet

open Lib

inductive Call
  | loop (a : Action)
  | newConnection (obj : Nat) (fd : Fd)
  | newAcceptor (obj : Nat)
  | newConnector (obj : Nat)
  | moveConstruct (obj other : Nat)
  | moveAssign (obj other : Nat)
  | destroy (obj : Nat) (taken : Nat)
  | asyncRead (obj : Nat) (addr : Nat)
  | asyncWrite (obj : Nat) (sentBytes : Span) (addr : Nat)
  | listen (obj : Nat) (address : String) (port : UInt16) (outcome : SocketOutcome) (addr : Nat)
  | asyncConnect (obj : Nat) (address : String) (port : UInt16) (outcome : SocketOutcome) (addr : Nat)
  | onConnection (connector obj : Nat)
  | setConnected (connector : Nat)

structure Net where
  loop : EventLoop
  objects : Nat → Option Object := fun _ => none
  nextSubscriber : SubscriberId := 0
  sockets : Fd → Option Nat := fun _ => none
  nextSocket : Nat := 0
  destroyed : List SubscriberId := []
  requestSockets : List (Option Nat) := []
  cancelSockets : List (Option Nat) := []
  submissions : List (Sqe × Option Nat) := []
  reads : List (Option SubscriberId × Nat) := []

namespace Net

def new (ringEntries : Nat) (status : Int) : Net := { loop := .new ringEntries status }

/-- The loop has moved on; the kernel looked up the descriptors of the entries it took. -/
def moveLoop (n : Net) (loop : EventLoop) : Net :=
  { n with
    loop
    submissions := n.submissions ++
      (loop.ring.submitted.drop n.loop.ring.submitted.length).map fun e => (e, n.sockets e.prep.fd) }

def put (n : Net) (obj : Nat) (o : Option Object) : Net := { n with objects := Function.update n.objects obj o }

/-- A new object, with a new `Subscriber`. -/
def create (n : Net) (obj : Nat) (o : Object) : Net := { n.put obj (some o) with nextSubscriber := n.nextSubscriber + 1 }

/-- The kernel hands out a descriptor number for a new socket. -/
def openSocket (n : Net) (fd : Fd) : Net :=
  { n with sockets := Function.update n.sockets fd (some n.nextSocket), nextSocket := n.nextSocket + 1 }

def close (n : Net) : Option Fd → Net
  | some fd => { n with sockets := Function.update n.sockets fd none }
  | none => n

/-- The `Subscriber` goes with its object. -/
def kill (n : Net) (s : Option SubscriberId) : Net := { n with destroyed := n.destroyed ++ s.toList }

/-- A request was added to the loop, which is now `loop`. -/
def added (n : Net) (fd : Fd) (loop : EventLoop) : Net :=
  { n.moveLoop loop with requestSockets := n.requestSockets ++ [n.sockets fd] }

/-- The beginning of the objects' destructors. -/
def cancelIfValid (n : Net) (socket : FileDescriptor) (taken : Nat) : Net :=
  if socket.valid then
    { n.moveLoop (n.loop.cancel socket.fd taken) with cancelSockets := n.cancelSockets ++ [n.sockets socket.fd] }
  else n

/-- Whether the next completion would be handed to a destroyed `Subscriber`. -/
def callsDestroyed (n : Net) : Bool :=
  match n.loop.nextCompletion with
  | none => false
  | some c =>
    match n.loop.dispatch c with
    | .ok ⟨_, .subscriber s _, _⟩ => n.destroyed.contains s
    | _ => false

/-- The steps the loop thread and the kernel make by themselves. -/
def ownStep : Action → Bool
  | .add .. | .cancel .. => false
  | _ => true

/-- What is left of `listen` and `asyncConnect` once the attempt is known. -/
def attempt (n : Net) (obj : Nat) (o : Object) (opened closed : Option Fd) (request : Option Request) (addr : Nat) :
    Except Stop Net :=
  if opened.all fun fd => (n.sockets fd).isNone then
    let n := ((opened.elim n n.openSocket).close closed).put obj (some o)
    match request with
    | none => .ok n
    | some r =>
      if RequestPool.free n.loop.pool addr then .ok (n.added r.fd (n.loop.add r o.subscriber addr).2)
      else .error .disabled
  else .error .disabled

def step (n : Net) : Call → Except Stop Net
  | .loop a =>
    if !ownStep a then .error .disabled
    else if a = .next ∧ n.callsDestroyed = true then .error (.fault .danglingSubscriber)
    else
      match n.loop.step a with
      | .error e => .error e
      | .ok l => .ok (n.moveLoop l)
  | .newConnection obj fd =>
    -- the kernel hands out a number that is not in use
    if (n.objects obj).isNone ∧ 0 ≤ fd ∧ (n.sockets fd).isNone then
      .ok ((n.openSocket fd).create obj (.connection (Connection.new ⟨fd⟩ n.nextSubscriber).1))
    else .error .disabled
  | .newAcceptor obj =>
    if (n.objects obj).isNone then .ok (n.create obj (.acceptor { subscriber := n.nextSubscriber }))
    else .error .disabled
  | .newConnector obj =>
    if (n.objects obj).isNone then .ok (n.create obj (.connector { subscriber := n.nextSubscriber }))
    else .error .disabled
  | .moveConstruct obj other =>
    match n.objects obj, n.objects other with
    | none, some (.connection c) =>
      .ok ((n.put obj (some (.connection c.moveConstruct.1))).put other (some (.connection c.moveConstruct.2)))
    | _, _ => .error .disabled
  | .moveAssign obj other =>
    match n.objects obj, n.objects other with
    | some (.connection c), some (.connection d) =>
      -- self-move swaps the descriptor with itself and resets the pointer to itself
      if obj = other then .ok n
      else
        .ok (((n.put obj (some (.connection (c.moveAssign d).1))).put other
          (some (.connection (c.moveAssign d).2))).kill c.subscriber)
    | _, _ => .error .disabled
  | .destroy obj taken =>
    match n.objects obj with
    | none => .error .disabled
    -- the destructor's body, then its members'
    | some o => .ok ((((n.cancelIfValid o.socket taken).put obj none).close o.socket.closes).kill o.subscriber)
  | .asyncRead obj addr =>
    match n.objects obj with
    | some (.connection c) =>
      if RequestPool.free n.loop.pool addr then
        .ok { n.added c.socket.fd (c.asyncRead n.loop addr).2 with
          reads := n.reads ++ [(c.subscriber, n.loop.accepted.length)] }
      else .error .disabled
    | _ => .error .disabled
  | .asyncWrite obj sentBytes addr =>
    match n.objects obj with
    | some (.connection c) =>
      if RequestPool.free n.loop.pool addr then .ok (n.added c.socket.fd (c.asyncWrite n.loop sentBytes addr).2)
      else .error .disabled
    | _ => .error .disabled
  | .listen obj address port outcome addr =>
    match n.objects obj with
    | some (.acceptor a) =>
      let t := a.listen address port outcome
      n.attempt obj (.acceptor t.object) t.opened t.closed t.request addr
    | _ => .error .disabled
  | .asyncConnect obj address port outcome addr =>
    match n.objects obj with
    | some (.connector c) =>
      let t := c.asyncConnect obj address port outcome
      n.attempt obj (.connector t.object) t.opened t.closed t.request addr
    | _ => .error .disabled
  | .onConnection connector obj =>
    match n.objects connector, n.objects obj with
    | some (.connector c), none =>
      -- inside the callback of the connect event
      if n.loop.running = some (.subscriber c.subscriber .connect) then
        let made := Connection.new c.socket n.nextSubscriber
        .ok ((n.put connector (some (.connector { c with socket := made.2 }))).create obj (.connection made.1))
      else .error .disabled
    | _, _ => .error .disabled
  | .setConnected connector =>
    match n.objects connector with
    | some (.connector c) =>
      if n.loop.running = some (.subscriber c.subscriber .connect) then
        .ok (n.put connector (some (.connector { c with connectionStatus := .CONNECTED })))
      else .error .disabled
    | _ => .error .disabled

/-! ## What a call does -/

/-- The effect of each call that is possible. `attempt` stands for `listen`
and `asyncConnect`, whose object keeps its `Subscriber`. -/
inductive Effect (n : Net) : Call → Net → Prop
  | loop {a l} : ownStep a = true → (a = .next → n.callsDestroyed = false) → n.loop.step a = .ok l →
      Effect n (.loop a) (n.moveLoop l)
  | newConnection {obj fd} : n.objects obj = none → 0 ≤ fd → n.sockets fd = none →
      Effect n (.newConnection obj fd)
        ((n.openSocket fd).create obj (.connection (Connection.new ⟨fd⟩ n.nextSubscriber).1))
  | newAcceptor {obj} : n.objects obj = none →
      Effect n (.newAcceptor obj) (n.create obj (.acceptor { subscriber := n.nextSubscriber }))
  | newConnector {obj} : n.objects obj = none →
      Effect n (.newConnector obj) (n.create obj (.connector { subscriber := n.nextSubscriber }))
  | moveConstruct {obj other c} : n.objects obj = none → n.objects other = some (.connection c) →
      Effect n (.moveConstruct obj other)
        ((n.put obj (some (.connection c.moveConstruct.1))).put other (some (.connection c.moveConstruct.2)))
  | selfMove {obj} : Effect n (.moveAssign obj obj) n
  | moveAssign {obj other c d} : obj ≠ other → n.objects obj = some (.connection c) →
      n.objects other = some (.connection d) →
      Effect n (.moveAssign obj other) (((n.put obj (some (.connection (c.moveAssign d).1))).put other
        (some (.connection (c.moveAssign d).2))).kill c.subscriber)
  | destroy {obj taken o} : n.objects obj = some o →
      Effect n (.destroy obj taken)
        ((((n.cancelIfValid o.socket taken).put obj none).close o.socket.closes).kill o.subscriber)
  | asyncRead {obj addr c} : n.objects obj = some (.connection c) → RequestPool.free n.loop.pool addr = true →
      Effect n (.asyncRead obj addr) { n.added c.socket.fd (n.loop.add c.readRequest c.subscriber addr).2 with
        reads := n.reads ++ [(c.subscriber, n.loop.accepted.length)] }
  | asyncWrite {obj sentBytes addr c} : n.objects obj = some (.connection c) →
      RequestPool.free n.loop.pool addr = true →
      Effect n (.asyncWrite obj sentBytes addr)
        (n.added c.socket.fd (n.loop.add (c.writeRequest sentBytes) c.subscriber addr).2)
  | attempt {call obj o o' opened closed request addr n'} :
      (∃ a p t, call = .listen obj a p t addr ∨ call = .asyncConnect obj a p t addr) →
      n.objects obj = some o → o'.subscriber = o.subscriber → o.subscriber ≠ none →
      n.attempt obj o' opened closed request addr = .ok n' → Effect n call n'
  | onConnection {connector obj c} : n.objects connector = some (.connector c) → n.objects obj = none →
      Effect n (.onConnection connector obj)
        ((n.put connector (some (.connector { c with socket := (Connection.new c.socket n.nextSubscriber).2 }))).create
          obj (.connection (Connection.new c.socket n.nextSubscriber).1))
  | setConnected {connector c} : n.objects connector = some (.connector c) →
      Effect n (.setConnected connector) (n.put connector (some (.connector { c with connectionStatus := .CONNECTED })))

theorem step_effect {n n' : Net} {c : Call} (h : n.step c = .ok n') : Effect n c n' := by
  cases c with
  | loop a =>
    simp only [step] at h
    split at h
    · cases h
    · rename_i hown
      split at h
      · cases h
      · rename_i hcall
        split at h
        · cases h
        · rename_i l hl
          cases h
          refine .loop (by simpa using hown) (fun ha => ?_) hl
          by_contra hd
          exact hcall ⟨ha, by simpa using hd⟩
  | newConnection obj fd =>
    simp only [step, Option.isNone_iff_eq_none] at h
    split at h
    · rename_i hg
      cases h
      exact .newConnection hg.1 hg.2.1 hg.2.2
    · cases h
  | newAcceptor obj =>
    simp only [step, Option.isNone_iff_eq_none] at h
    split at h
    · rename_i hg
      cases h
      exact .newAcceptor hg
    · cases h
  | newConnector obj =>
    simp only [step, Option.isNone_iff_eq_none] at h
    split at h
    · rename_i hg
      cases h
      exact .newConnector hg
    · cases h
  | moveConstruct obj other =>
    simp only [step] at h
    split at h
    · rename_i hobj hother
      cases h
      exact .moveConstruct hobj hother
    · cases h
  | moveAssign obj other =>
    simp only [step] at h
    split at h
    · rename_i hobj hother
      split at h
      · rename_i he
        subst he
        cases h
        exact .selfMove
      · rename_i hne
        cases h
        exact .moveAssign hne hobj hother
    · cases h
  | destroy obj taken =>
    simp only [step] at h
    split at h
    · cases h
    · rename_i ho
      cases h
      exact .destroy ho
  | asyncRead obj addr =>
    simp only [step] at h
    split at h
    · rename_i hc
      split at h
      · rename_i hf
        cases h
        exact .asyncRead hc hf
      · cases h
    · cases h
  | asyncWrite obj sentBytes addr =>
    simp only [step] at h
    split at h
    · rename_i hc
      split at h
      · rename_i hf
        cases h
        exact .asyncWrite hc hf
      · cases h
    · cases h
  | listen obj address port outcome addr =>
    simp only [step] at h
    split at h
    · rename_i a ha
      refine .attempt ⟨address, port, outcome, .inl rfl⟩ ha ?_ (by simp) h
      simp [Acceptor.listen_subscriber]
    · cases h
  | asyncConnect obj address port outcome addr =>
    simp only [step] at h
    split at h
    · rename_i c hc
      refine .attempt ⟨address, port, outcome, .inr rfl⟩ hc ?_ (by simp) h
      simp [Connector.asyncConnect_subscriber]
    · cases h
  | onConnection connector obj =>
    simp only [step] at h
    split at h
    · rename_i hc hobj
      split at h
      · cases h
        exact .onConnection hc hobj
      · cases h
    · cases h
  | setConnected connector =>
    simp only [step] at h
    split at h
    · rename_i hc
      split at h
      · cases h
        exact .setConnected hc
      · cases h
    · cases h

/-! ## The loop behind it -/

@[simp] theorem moveLoop_loop (n : Net) (l : EventLoop) : (n.moveLoop l).loop = l := rfl
@[simp] theorem put_loop (n : Net) (obj : Nat) (o : Option Object) : (n.put obj o).loop = n.loop := rfl
@[simp] theorem create_loop (n : Net) (obj : Nat) (o : Object) : (n.create obj o).loop = n.loop := rfl
@[simp] theorem openSocket_loop (n : Net) (fd : Fd) : (n.openSocket fd).loop = n.loop := rfl
@[simp] theorem kill_loop (n : Net) (s : Option SubscriberId) : (n.kill s).loop = n.loop := rfl
@[simp] theorem added_loop (n : Net) (fd : Fd) (l : EventLoop) : (n.added fd l).loop = l := rfl

@[simp] theorem close_loop (n : Net) (fd : Option Fd) : (n.close fd).loop = n.loop := by
  cases fd <;> rfl

theorem cancelIfValid_loop (n : Net) (d : FileDescriptor) (taken : Nat) :
    (n.cancelIfValid d taken).loop = if d.valid then n.loop.cancel d.fd taken else n.loop := by
  unfold cancelIfValid
  split <;> rfl

/-- `close` changes the descriptor table only. -/
theorem close_same (n : Net) (fd : Option Fd) : n.close fd = { n with sockets := (n.close fd).sockets } := by
  cases fd <;> rfl

/-- The destructors' cancel changes the loop and the records of it only. -/
theorem cancelIfValid_same (n : Net) (d : FileDescriptor) (taken : Nat) : n.cancelIfValid d taken = { n with
    loop := (n.cancelIfValid d taken).loop
    submissions := (n.cancelIfValid d taken).submissions
    cancelSockets := (n.cancelIfValid d taken).cancelSockets } := by
  unfold cancelIfValid
  split <;> rfl

/-- An attempt opens and closes descriptors and puts the object back, and then adds at most one request for it. -/
theorem attempt_cases {n n' : Net} {obj : Nat} {o : Object} {opened closed : Option Fd} {request : Option Request}
    {addr : Nat} (h : n.attempt obj o opened closed request addr = .ok n') :
    ∃ sockets nextSocket, (request = none ∧ n' = { n.put obj (some o) with sockets, nextSocket }) ∨
      ∃ r, request = some r ∧ RequestPool.free n.loop.pool addr = true ∧
        n' = ({ n.put obj (some o) with sockets, nextSocket } : Net).added r.fd (n.loop.add r o.subscriber addr).2 := by
  have hopen : opened.elim n n.openSocket = { n with
      sockets := (opened.elim n n.openSocket).sockets, nextSocket := (opened.elim n n.openSocket).nextSocket } := by
    cases opened <;> rfl
  have hm : ((opened.elim n n.openSocket).close closed).put obj (some o) = { n.put obj (some o) with
      sockets := ((opened.elim n n.openSocket).close closed).sockets
      nextSocket := (opened.elim n n.openSocket).nextSocket } := by
    rw [close_same, hopen]
    rfl
  refine ⟨((opened.elim n n.openSocket).close closed).sockets, (opened.elim n n.openSocket).nextSocket, ?_⟩
  unfold attempt at h
  rw [hm] at h
  split at h
  · split at h
    · cases h
      exact .inl ⟨rfl, rfl⟩
    · dsimp only at h
      split at h
      · rename_i hf
        cases h
        exact .inr ⟨_, rfl, hf, rfl⟩
      · cases h
  · cases h

theorem attempt_objects {n n' : Net} {obj : Nat} {o : Object} {opened closed : Option Fd} {request : Option Request}
    {addr : Nat} (h : n.attempt obj o opened closed request addr = .ok n') :
    n'.objects = Function.update n.objects obj (some o) := by
  obtain ⟨sockets, nextSocket, ⟨-, rfl⟩ | ⟨r, -, -, rfl⟩⟩ := attempt_cases h <;> rfl

theorem attempt_loop {n n' : Net} {obj : Nat} {o : Object} {opened closed : Option Fd} {request : Option Request}
    {addr : Nat} (h : n.attempt obj o opened closed request addr = .ok n') :
    n'.loop = request.elim n.loop fun r => (n.loop.add r o.subscriber addr).2 := by
  obtain ⟨sockets, nextSocket, ⟨rfl, rfl⟩ | ⟨r, rfl, -, rfl⟩⟩ := attempt_cases h <;> rfl

/-- `listen` is a call of an acceptor. -/
theorem listen_spec {n n' : Net} {obj : Nat} {address : String} {port : UInt16} {o : SocketOutcome} {addr : Nat}
    (h : n.step (.listen obj address port o addr) = .ok n') :
    ∃ a, n.objects obj = some (.acceptor a) ∧
      n.attempt obj (.acceptor (a.listen address port o).object) (a.listen address port o).opened
        (a.listen address port o).closed (a.listen address port o).request addr = .ok n' := by
  simp only [step] at h
  split at h
  · rename_i a ha
    exact ⟨a, ha, h⟩
  · cases h

/-- `asyncConnect` is a call of a connector. -/
theorem asyncConnect_spec {n n' : Net} {obj : Nat} {address : String} {port : UInt16} {o : SocketOutcome} {addr : Nat}
    (h : n.step (.asyncConnect obj address port o addr) = .ok n') :
    ∃ c, n.objects obj = some (.connector c) ∧
      n.attempt obj (.connector (c.asyncConnect obj address port o).object) (c.asyncConnect obj address port o).opened
        (c.asyncConnect obj address port o).closed (c.asyncConnect obj address port o).request addr = .ok n' := by
  simp only [step] at h
  split at h
  · rename_i c hc
    exact ⟨c, hc, h⟩
  · cases h

/-- The object a request is made of. -/
def requester : Call → Option Nat
  | .asyncRead obj _ | .asyncWrite obj _ _ | .listen obj _ _ _ _ | .asyncConnect obj _ _ _ _ => some obj
  | _ => none

/-- A call is at most one step of the loop: a step of its own, a request for
the subscriber of one of the objects, or the cancel of a destructor. -/
theorem effect_loop {n n' : Net} {c : Call} (h : Effect n c n') :
    n'.loop = n.loop ∨ ∃ a, n.loop.step a = .ok n'.loop ∧ (ownStep a = true → c = .loop a) ∧
      (∀ r s addr, a = .add r s addr → ∃ obj o, requester c = some obj ∧ n.objects obj = some o ∧ o.subscriber = s ∧
        (s = none → (∃ addr, c = .asyncRead obj addr) ∨ ∃ bytes addr, c = .asyncWrite obj bytes addr)) ∧
      ∀ fd taken, a = .cancel fd taken → ∃ obj o, c = .destroy obj taken ∧ n.objects obj = some o ∧
        o.socket.valid = true ∧ fd = o.socket.fd := by
  cases h with
  | @loop a l hown _ hl =>
    refine .inr ⟨a, hl, fun _ => rfl, ?_, ?_⟩
    · rintro r s addr rfl
      cases hown
    · rintro fd taken rfl
      cases hown
  | @destroy obj taken o ho =>
    simp only [kill_loop, close_loop, put_loop, cancelIfValid_loop]
    split
    · rename_i hv
      refine .inr ⟨.cancel o.socket.fd taken, rfl, nofun, by simp, ?_⟩
      rintro fd taken' heq
      cases heq
      exact ⟨obj, o, rfl, ho, hv, rfl⟩
    · exact .inl rfl
  | @asyncRead obj addr c hc hf =>
    refine .inr ⟨.add c.readRequest c.subscriber addr, if_pos hf, nofun, ?_, by simp⟩
    rintro r s addr' heq
    cases heq
    exact ⟨obj, .connection c, rfl, hc, rfl, fun _ => .inl ⟨addr, rfl⟩⟩
  | @asyncWrite obj bytes addr c hc hf =>
    refine .inr ⟨.add (c.writeRequest bytes) c.subscriber addr, if_pos hf, nofun, ?_, by simp⟩
    rintro r s addr' heq
    cases heq
    exact ⟨obj, .connection c, rfl, hc, rfl, fun _ => .inr ⟨bytes, addr, rfl⟩⟩
  | @attempt call obj o o' opened closed request addr n' hcall ho hs hne ha =>
    obtain ⟨sockets, nextSocket, ⟨-, rfl⟩ | ⟨r, -, hf, rfl⟩⟩ := attempt_cases ha
    · exact .inl rfl
    · refine .inr ⟨.add r o'.subscriber addr, if_pos hf, nofun, ?_, by simp⟩
      rintro r' s addr' heq
      cases heq
      refine ⟨obj, o, ?_, ho, hs.symm, fun h0 => absurd (hs.symm.trans h0) hne⟩
      obtain ⟨address, port, outcome, rfl | rfl⟩ := hcall <;> rfl
  | _ => exact .inl rfl

/-- A condition on the loop's own steps that holds of a run of a program. -/
theorem run_loop_of {C : Net → Call → Prop} {D : EventLoop → Action → Prop} {k : Nat} {st : Int} {n : Net}
    (hadd : ∀ l r s addr, D l (.add r s addr)) (hcan : ∀ l fd taken, D l (.cancel fd taken))
    (hC : ∀ n a, C n (.loop a) → D n.loop a) (h : Run step C (new k st) n) :
    Run EventLoop.step D (.new k st) n.loop := by
  refine Run.simulate (·.loop) ?_ h
  intro s c s' _ hc hs
  rcases effect_loop (step_effect hs) with hl | ⟨a, hl, hown, -⟩
  · show Run EventLoop.step D s.loop s'.loop
    rw [hl]
    exact .refl
  · refine Run.refl.step (a := a) ?_ hl
    cases a with
    | add r u addr => exact hadd _ r u addr
    | cancel fd taken => exact hcan _ fd taken
    | _ => exact hC s _ (hown rfl ▸ hc)

/-- Every run of a program is a run of its loop. -/
theorem run_loop {C : Net → Call → Prop} {k : Nat} {st : Int} {n : Net} (h : Run step C (new k st) n) :
    EventLoop.Reachable k st n.loop :=
  run_loop_of (fun _ _ _ _ => trivial) (fun _ _ _ => trivial) (fun _ _ _ => trivial) h

end Net

end RingNet
