import RingNet.Requests
/-!
# Sockets

`net/sockets.hpp` and `.cpp`: the owner of a descriptor, the statuses of the
blocking calls, and addresses. What the operating system answers is a
parameter of each operation (`SysResult`); `errno` is passed along, since the
statuses with `USE_ERRNO` are made of `errno` and not of the call's return
value.
-/

namespace RingNet

/-- What a system call does: return a value, or return -1 and set `errno`. -/
inductive SysResult
  | ok (value : Int)
  | error (code : Int)
  deriving DecidableEq, Repr

def SysResult.returned : SysResult → Int
  | .ok v => v
  | .error _ => -1

/-- The descriptor the call made, if it made one. -/
def SysResult.descriptor : SysResult → Option Fd
  | .ok fd => some fd
  | .error _ => none

/-- `errno` after the call. -/
def SysResult.errno (errno : Int) : SysResult → Int
  | .ok _ => errno
  | .error code => code

/-- `FileDescriptorStatus<StrError, USE_ERRNO>`, by its `return_code`. -/
structure FileDescriptorStatus where
  code : Int
  deriving DecidableEq, Repr

namespace FileDescriptorStatus

/-- The constructor: with `USE_ERRNO` the argument is not looked at. -/
def make (useErrno : Bool) (errno returnCode : Int) : FileDescriptorStatus := ⟨if useErrno then errno else returnCode⟩

/-- `operator bool`. -/
def success (s : FileDescriptorStatus) : Bool := s.code == 0

end FileDescriptorStatus

/-! ## Descriptors -/

/-- A `FileDescriptor` object. -/
structure FileDescriptor where
  fd : Fd := -1
  deriving DecidableEq, Repr

namespace FileDescriptor

/-- `operator bool`. -/
def valid (d : FileDescriptor) : Bool := 0 < d.fd

/-- Move construction: the new object, and what is left of the other. -/
def moveConstruct (other : FileDescriptor) : FileDescriptor × FileDescriptor := (⟨other.fd⟩, {})

/-- Move assignment swaps. -/
def moveAssign (self other : FileDescriptor) : FileDescriptor × FileDescriptor := (⟨other.fd⟩, ⟨self.fd⟩)

/-- The descriptor the destructor closes. -/
def closes (d : FileDescriptor) : Option Fd := if 0 < d.fd then some d.fd else none

end FileDescriptor

/-! ## Addresses -/

inductive IPVersion
  | IPv4 | IPv6
  deriving DecidableEq, Repr

/-- `std::variant<sockaddr_in, sockaddr_in6>`, by the bytes. -/
inductive SocketAddress
  | sockaddrIn (bytes : List UInt8)
  | sockaddrIn6 (bytes : List UInt8)
  deriving DecidableEq, Repr

namespace SocketAddress

def SIZEOF_SOCKADDR_IN : Nat := 16

/-- The pointer and the length; `self` is where the variant is. Both
alternatives give the size of a `sockaddr_in`. -/
def asSockaddr (self : Nat) : SocketAddress → Nat × Nat
  | .sockaddrIn _ => (self, SIZEOF_SOCKADDR_IN)
  | .sockaddrIn6 _ => (self, SIZEOF_SOCKADDR_IN)

def ipVersion : SocketAddress → IPVersion
  | .sockaddrIn _ => .IPv4
  | .sockaddrIn6 _ => .IPv6

end SocketAddress

/-- `resolve`'s answer: an address, or a `getaddrinfo` code. -/
abbrev ResolvedAddress := Except Int SocketAddress

/-- How the calls that make a socket go: the address resolution, `errno` after
it, and the system calls in order. -/
structure SocketOutcome where
  resolved : ResolvedAddress
  errno : Int := 0
  socket : SysResult
  setOption : SysResult := .ok 0
  bind : SysResult := .ok 0
  listen : SysResult := .ok 0

namespace SocketOutcome

def errnoAfterSocket (o : SocketOutcome) : Int := o.socket.errno o.errno
def errnoAfterSetOption (o : SocketOutcome) : Int := o.setOption.errno o.errnoAfterSocket
def errnoAfterBind (o : SocketOutcome) : Int := o.bind.errno o.errnoAfterSetOption
def errnoAfterListen (o : SocketOutcome) : Int := o.listen.errno o.errnoAfterBind

/-- The status of `set_option`, `bind` and `listen`, each with its own return value and `errno`. -/
def setOptionStatus (o : SocketOutcome) : FileDescriptorStatus :=
  .make true o.errnoAfterSetOption o.setOption.returned
def bindStatus (o : SocketOutcome) : FileDescriptorStatus := .make true o.errnoAfterBind o.bind.returned
def listenStatus (o : SocketOutcome) : FileDescriptorStatus := .make true o.errnoAfterListen o.listen.returned

end SocketOutcome

end RingNet
