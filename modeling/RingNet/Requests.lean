import Mathlib.Logic.Function.Basic
/-!
# Requests, events and statuses

The request types of `uring/requests.hpp`, the event types of `events.hpp`
and the messages of `status.hpp`. Every request starts with a header; its
magic number and its operation are fixed by the request type's default member
initialisers, and `EventLoop::add` fills in the user data, so a header is
computed from the request and the subscriber.

Memory misuse does not go unnoticed in the model: an operation that would
read or free memory it must not returns a `Fault` instead of a state.
-/

namespace RingNet

/-- A descriptor number, `FileDescriptor::Raw`. -/
abbrev Fd := Int

/-- A `Subscriber` object. A header holds its address; the model holds the
object's identity, which is never used again, so that a header naming a
destroyed `Subscriber` stays visible when the address is handed out anew. -/
abbrev SubscriberId := Nat

/-- `std::span<std::byte>`. -/
structure Span where
  data : Nat
  size : Nat
  deriving DecidableEq, Repr

/-- `subspan(0, count)`. -/
def Span.subspan (s : Span) (count : Nat) : Span := { s with size := count }

inductive Operation
  | accept | connect | read | readMultishot | write
  deriving DecidableEq, Repr

/-- The requests the kernel may complete more than once. -/
def Operation.multishot : Operation → Bool
  | .accept | .readMultishot => true
  | .connect | .read | .write => false

def HEADER_MAGIC_VALUE : UInt32 := 0xA1B2C3D4

structure RequestHeader where
  magic : UInt32 := HEADER_MAGIC_VALUE
  op : Operation
  userData : Option SubscriberId := none
  deriving DecidableEq, Repr

def RequestHeader.valid (h : RequestHeader) : Bool := h.magic == HEADER_MAGIC_VALUE

/-- The fields of the five request types after the header. `addr` is the
address of the `sockaddr` a connect request points to. -/
inductive Request
  | accept (listeningSocketFd : Fd)
  | connect (socketFd : Fd) (addr : Nat) (addrlen : Nat)
  | read (fd : Fd) (receptionBuffer : Span)
  | multiShotRead (fd : Fd) (bufferGroupId : UInt16)
  | write (fd : Fd) (bytesWritten : Span)
  deriving DecidableEq, Repr

/-- The operation in the header of each request type, which is also its type
tag: `release` finds the type to deallocate by it. -/
def Request.op : Request → Operation
  | .accept .. => .accept
  | .connect .. => .connect
  | .read .. => .read
  | .multiShotRead .. => .readMultishot
  | .write .. => .write

def Request.fd : Request → Fd
  | .accept fd | .connect fd _ _ | .read fd _ | .multiShotRead fd _ | .write fd _ => fd

def Request.header (r : Request) (userData : Option SubscriberId) : RequestHeader :=
  { op := r.op, userData }

@[simp] theorem Request.header_valid (r : Request) (u : Option SubscriberId) : (r.header u).valid = true := rfl
@[simp] theorem Request.header_op (r : Request) (u : Option SubscriberId) : (r.header u).op = r.op := rfl
@[simp] theorem Request.header_userData (r : Request) (u : Option SubscriberId) : (r.header u).userData = u := rfl

inductive Event
  | error (errorCode : Int)
  | accept (clientFd : Fd)
  | connect
  | read (fd : Fd) (bytesRead : Span)
  | write (fd : Fd) (bytesWritten : Span)
  deriving DecidableEq, Repr

/-- `e` is of the event type that a successful completion of `op` is reported with. -/
def Event.reports : Event → Operation → Bool
  | .accept _, .accept => true
  | .connect, .connect => true
  | .read .., .read => true
  | .read .., .readMultishot => true
  | .write .., .write => true
  | _, _ => false

/-- A text: a literal, what `strerror` or `gai_strerror` says of a code, or two of these joined. -/
inductive Message
  | text (s : String)
  | strerror (code : Int)
  | gaiStrerror (code : Int)
  | append (a b : Message)
  deriving DecidableEq, Repr

structure MessagedStatus where
  success : Bool
  message : Message
  deriving DecidableEq, Repr

/-- Undefined behaviour the program can run into. -/
inductive Fault
  /-- A request header is read through a null pointer. -/
  | nullHeader
  /-- A request header is read in memory that is not an allocated block. -/
  | danglingHeader
  /-- A block is read, or given back to the pool, as a request type it does not hold. -/
  | wrongType
  /-- `std::span::operator[]` past the end, or a null buffer ring. -/
  | bufferIndex
  /-- An event is handed to a `Subscriber` that has been destroyed. -/
  | danglingSubscriber
  deriving DecidableEq, Repr

/-- Why a machine refuses an action: it is not possible in that state, or it
is undefined behaviour. -/
inductive Stop
  | disabled
  | fault (f : Fault)
  deriving DecidableEq, Repr

end RingNet
