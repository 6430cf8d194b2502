import RingNet.EventLoop
import RingNet.Sockets
/-!
# Connections, acceptors and connectors

`net/connection.hpp` and `.cpp`, `net/acceptor.hpp` and `net/connector.hpp`:
the objects that own a socket and a `Subscriber` and make requests of the
loop. The members `loop`, `max_connections` and the registered callbacks are
left out: there is one loop, the second is only an argument of `::listen`, and
what callbacks do is up to the program.

`listen` and `asyncConnect` assign a new socket before they know whether the
rest succeeds; the assignment swaps, and the temporary closes the old socket.
-/

namespace RingNet

/-! ## Connections -/

/-- A `Connection`. A moved-from one has no subscriber and no socket. -/
structure Connection where
  socket : FileDescriptor
  endpointFd : Fd
  subscriber : Option SubscriberId
  deriving DecidableEq, Repr

namespace Connection

/-- The constructor moves the descriptor in; `subscriber` is the one it makes. -/
def new (socket : FileDescriptor) (subscriber : SubscriberId) : Connection × FileDescriptor :=
  let moved := socket.moveConstruct
  (⟨moved.1, moved.1.fd, some subscriber⟩, moved.2)

/-- The defaulted move constructor: the new object, and what is left of the other. -/
def moveConstruct (other : Connection) : Connection × Connection :=
  let socket := other.socket.moveConstruct
  (⟨socket.1, other.endpointFd, other.subscriber⟩, { other with socket := socket.2, subscriber := none })

/-- The defaulted move assignment: sockets are swapped, the target's
`Subscriber` is destroyed and the other's taken over. -/
def moveAssign (self other : Connection) : Connection × Connection :=
  let socket := self.socket.moveAssign other.socket
  (⟨socket.1, other.endpointFd, other.subscriber⟩, { other with socket := socket.2, subscriber := none })

end Connection

/-- What `EventLoop::add` answers, as the objects report it. -/
def addStatus (success : String) : AddRequestStatus → MessagedStatus
  | .queueFull => ⟨false, .text "Request queue is full"⟩
  | .ok => ⟨true, .text success⟩

namespace Connection

def readRequest (c : Connection) : Request := .multiShotRead c.socket.fd 0

def writeRequest (c : Connection) (sentBytes : Span) : Request := .write c.socket.fd sentBytes

/-- `addr` is where the pool puts the request. -/
def asyncRead (c : Connection) (loop : EventLoop) (addr : Nat) : MessagedStatus × EventLoop :=
  let added := loop.add c.readRequest c.subscriber addr
  (addStatus "Success" added.1, added.2)

def asyncWrite (c : Connection) (loop : EventLoop) (sentBytes : Span) (addr : Nat) : MessagedStatus × EventLoop :=
  let added := loop.add (c.writeRequest sentBytes) c.subscriber addr
  (addStatus "Success" added.1, added.2)

end Connection

/-! ## Acceptors and connectors -/

/-- What an operation that makes a socket did: its answer, the object after
it, the descriptors it opened and closed, and the request it added. -/
structure Attempt (α : Type) where
  status : MessagedStatus
  object : α
  opened : Option Fd := none
  closed : Option Fd := none
  request : Option Request := none

/-- "… address:port: reason". -/
def errorAbout (what address : String) (port : UInt16) (reason : Message) : MessagedStatus :=
  ⟨false, .append (.text (what ++ address ++ ":" ++ toString port.toNat ++ ": ")) reason⟩

structure Acceptor where
  subscriber : SubscriberId
  listening : Bool := false
  listeningSocket : FileDescriptor := {}
  deriving DecidableEq, Repr

/-- `listening_socket = ::socket(..)`: the object with the new socket, and what the temporary closes. -/
def Acceptor.assignSocket (a : Acceptor) (socket : Int) : Acceptor × Option Fd :=
  let assigned := a.listeningSocket.moveAssign ⟨socket⟩
  ({ a with listeningSocket := assigned.1 }, assigned.2.closes)

def Acceptor.listen (a : Acceptor) (address : String) (port : UInt16) (o : SocketOutcome) : Attempt Acceptor :=
  if a.listening then { status := ⟨false, .text "Already listening"⟩, object := a }
  else
    match o.resolved with
    | .error code =>
      { status := errorAbout "Error resolving address " address port (.gaiStrerror code), object := a }
    | .ok _ =>
      let a' := (a.assignSocket o.socket.returned).1
      let closed := (a.assignSocket o.socket.returned).2
      let opened := o.socket.descriptor
      if !o.setOptionStatus.success then
        { status := errorAbout "Error setting SO_REUSEADDR option to socket " address port
            (.strerror o.setOptionStatus.code)
          object := a', opened, closed }
      else if !o.bindStatus.success then
        { status := errorAbout "Error binding to " address port (.strerror o.bindStatus.code), object := a', opened, closed }
      else if !o.listenStatus.success then
        { status := errorAbout "Error listening to " address port (.strerror o.listenStatus.code)
          object := a', opened, closed }
      else
        -- `EventLoop::add` always answers OK
        { status := addStatus "Pending connection requests" .ok
          object := { a' with listening := true }, opened, closed
          request := some (.accept a'.listeningSocket.fd) }

inductive Connector.Status
  | DISCONNECTED | PENDING | CONNECTED
  deriving DecidableEq, Repr

structure Connector where
  subscriber : SubscriberId
  resolvedAddress : ResolvedAddress := .ok (.sockaddrIn (List.replicate 16 0))
  connectionStatus : Connector.Status := .DISCONNECTED
  socket : FileDescriptor := {}

/-- `socket = ::socket(..)`. -/
def Connector.assignSocket (c : Connector) (socket : Int) : Connector × Option Fd :=
  let assigned := c.socket.moveAssign ⟨socket⟩
  ({ c with socket := assigned.1 }, assigned.2.closes)

/-- `self` is where the connector keeps its resolved address. -/
def Connector.asyncConnect (c : Connector) (self : Nat) (address : String) (port : UInt16) (o : SocketOutcome) :
    Attempt Connector :=
  if c.connectionStatus = .PENDING then { status := ⟨false, .text "Already pending connection"⟩, object := c }
  else
    let c' := { c with resolvedAddress := o.resolved }
    match o.resolved with
    | .error code =>
      { status := errorAbout "Error resolving address " address port (.gaiStrerror code), object := c' }
    | .ok resolved =>
      let c'' := (c'.assignSocket o.socket.returned).1
      let closed := (c'.assignSocket o.socket.returned).2
      let opened := o.socket.descriptor
      if !o.setOptionStatus.success then
        { status := errorAbout "Error setting SO_REUSEADDR option to socket " address port
            (.strerror o.setOptionStatus.code)
          object := c'', opened, closed }
      else
        { status := addStatus "Pending connection" .ok
          object := { c'' with connectionStatus := .PENDING }, opened, closed
          request := some (.connect c''.socket.fd (resolved.asSockaddr self).1 (resolved.asSockaddr self).2) }

/-! ## Any of them -/

inductive Object
  | connection (c : Connection)
  | acceptor (a : Acceptor)
  | connector (c : Connector)

namespace Object

/-- The `Subscriber` the object owns. -/
def subscriber : Object → Option SubscriberId
  | .connection c => c.subscriber
  | .acceptor a => some a.subscriber
  | .connector c => some c.subscriber

/-- The socket the object owns. -/
def socket : Object → FileDescriptor
  | .connection c => c.socket
  | .acceptor a => a.listeningSocket
  | .connector c => c.socket

def asAcceptor : Object → Option Acceptor
  | .acceptor a => some a
  | _ => none

def asConnector : Object → Option Connector
  | .connector c => some c
  | _ => none

theorem asAcceptor_eq {o : Option Object} {a : Acceptor} : o.bind asAcceptor = some a ↔ o = some (.acceptor a) := by
  rcases o with _ | (c | a' | c) <;> simp [asAcceptor]

theorem asConnector_eq {o : Option Object} {c : Connector} : o.bind asConnector = some c ↔ o = some (.connector c) := by
  rcases o with _ | (c' | a | c') <;> simp [asConnector]

@[simp] theorem subscriber_connection (c : Connection) : (Object.connection c).subscriber = c.subscriber := rfl
@[simp] theorem subscriber_acceptor (a : Acceptor) : (Object.acceptor a).subscriber = some a.subscriber := rfl
@[simp] theorem subscriber_connector (c : Connector) : (Object.connector c).subscriber = some c.subscriber := rfl
@[simp] theorem socket_connection (c : Connection) : (Object.connection c).socket = c.socket := rfl

end Object

/-- An attempt keeps the object's subscriber. -/
theorem Acceptor.listen_subscriber (a : Acceptor) (address : String) (port : UInt16) (o : SocketOutcome) :
    (a.listen address port o).object.subscriber = a.subscriber := by
  unfold listen assignSocket
  repeat' split
  all_goals rfl

theorem Connector.asyncConnect_subscriber (c : Connector) (self : Nat) (address : String) (port : UInt16)
    (o : SocketOutcome) : (c.asyncConnect self address port o).object.subscriber = c.subscriber := by
  unfold asyncConnect assignSocket
  repeat' split
  all_goals rfl

end RingNet
