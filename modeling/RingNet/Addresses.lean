import RingNet.Lib.Bytes
import RingNet.Objects
/-!
# From a host name to the kernel

`resolve` in `net/sockets.cpp` and what becomes of its answer. The host name
goes to `getaddrinfo` as a pointer, and the address found comes back to the
kernel as a pointer and a length; both ends of this are about memory, so a
string view keeps the buffer it is part of, and system calls are recorded with
the pointers they are given.

`getaddrinfo` is a parameter: a function of the host name, the service and the
hints. `resolve` is undefined (`none`) if the host name it would read has no
end in its buffer.
-/

namespace RingNet

open Lib

/-! ## String views -/

def NUL : Char := Char.ofNat 0

/-- A `std::string_view`: a part of a buffer. -/
structure StringView where
  buffer : List Char
  offset : Nat
  length : Nat
  inside : offset + length ≤ buffer.length

namespace StringView

/-- The characters of the view. -/
def chars (v : StringView) : List Char := (v.buffer.drop v.offset).take v.length

/-- `std::string(view)`. -/
def toString (v : StringView) : String := String.ofList v.chars

/-- What is read through `data()` by a callee that takes a C string. -/
def data (v : StringView) : Option (List Char) := cString NUL (v.buffer.drop v.offset)

/-- The view ends where a C string would end. -/
def Terminated (v : StringView) : Prop := v.buffer[v.offset + v.length]? = some NUL

instance (v : StringView) : Decidable v.Terminated := inferInstanceAs (Decidable (_ = _))

theorem data_iff (v : StringView) (h : NUL ∉ v.chars) : v.data = some v.chars ↔ v.Terminated := by
  have hsplit : v.buffer.drop v.offset = v.chars ++ v.buffer.drop (v.offset + v.length) := by
    rw [chars, ← List.drop_drop, List.take_append_drop]
  rw [data, hsplit, cString_append_iff h, Terminated, List.head?_drop]

end StringView

/-! ## Resolving -/

inductive DatagramProtocol
  | UDP | TCP
  deriving DecidableEq, Repr

def AF_UNSPEC : Int := 0
def AF_INET : Int := 2
def AF_INET6 : Int := 10
def AI_PASSIVE : Int := 1

def IPVersion.toInt : IPVersion → Int
  | .IPv4 => AF_INET
  | .IPv6 => AF_INET6

/-- The `addrinfo` that `getaddrinfo` is asked with. -/
structure Hints where
  aiFamily : Int := AF_UNSPEC
  aiSocktype : DatagramProtocol
  aiFlags : Int
  deriving DecidableEq, Repr

/-- An entry of the list it returns, with the bytes `ai_addr` points to. -/
structure AddrInfo where
  aiFamily : Int
  aiAddr : List UInt8
  aiAddrlen : Nat
  deriving DecidableEq, Repr

abbrev GetAddrInfo := List Char → String → Hints → Except Int (List AddrInfo)

namespace SocketAddress

def SIZEOF_SOCKADDR_IN6 : Nat := 28

/-- The loop over the results, which stops at the first. -/
def ofResults : List AddrInfo → SocketAddress
  | [] => .sockaddrIn (List.replicate SIZEOF_SOCKADDR_IN 0)
  | result :: _ =>
    if result.aiFamily = AF_INET then .sockaddrIn (result.aiAddr.take SIZEOF_SOCKADDR_IN)
    -- asserted to be `AF_INET6`
    else .sockaddrIn6 (result.aiAddr.take SIZEOF_SOCKADDR_IN6)

/-- The object representation of the active alternative. -/
def bytes : SocketAddress → List UInt8
  | .sockaddrIn bytes | .sockaddrIn6 bytes => bytes

end SocketAddress

def hints (protocol : DatagramProtocol) (passive : Bool) : Hints :=
  { aiSocktype := protocol, aiFlags := if passive then AI_PASSIVE else 0 }

def resolve (getaddrinfo : GetAddrInfo) (hostname : StringView) (port : UInt16) (protocol : DatagramProtocol)
    (passive : Bool) : Option ResolvedAddress :=
  hostname.data.map fun host => (getaddrinfo host (toString port.toNat) (hints protocol passive)).map
    SocketAddress.ofResults

/-! ## System calls -/

/-- A call on a socket, with its arguments. -/
inductive SystemCall
  | socket (domain : IPVersion) (type : DatagramProtocol)
  | setsockopt (fd : Fd) (option value : Int)
  | bind (fd : Fd) (addr addrlen : Nat)
  | connect (fd : Fd) (addr addrlen : Nat)
  | listen (fd : Fd) (backlog : Int)
  deriving DecidableEq, Repr

def SO_REUSEADDR : Int := 2

namespace Sockets

def setOption (socket : FileDescriptor) (option : Int) (enable : Bool) : SystemCall :=
  .setsockopt socket.fd option (if enable then 1 else 0)

/-- `self` is where the address is, as in `asSockaddr`. -/
def connect (socket : FileDescriptor) (self : Nat) (address : SocketAddress) : SystemCall :=
  .connect socket.fd (address.asSockaddr self).1 (address.asSockaddr self).2

def bind (socket : FileDescriptor) (self : Nat) (address : SocketAddress) : SystemCall :=
  .bind socket.fd (address.asSockaddr self).1 (address.asSockaddr self).2

/-- The `size_t` becomes the `int` that `::listen` takes. -/
def listen (socket : FileDescriptor) (maxPendingRequests : UInt64) : SystemCall :=
  .listen socket.fd maxPendingRequests.toUInt32.toInt32.toInt

/-- An `Acceptor` made without a number of connections has the largest `size_t`. -/
example : listen ⟨5⟩ 0xFFFFFFFFFFFFFFFF = .listen 5 (-1) := by decide

end Sockets

/-- The calls of `listen`, in order. -/
def Acceptor.listenCalls (a : Acceptor) (self : Nat) (protocol : DatagramProtocol) (maxConnections : UInt64)
    (o : SocketOutcome) : List SystemCall :=
  if a.listening then []
  else
    match o.resolved with
    | .error _ => []
    | .ok address =>
      let socket := (a.assignSocket o.socket.returned).1.listeningSocket
      [.socket address.ipVersion protocol, Sockets.setOption socket SO_REUSEADDR true] ++
        if !o.setOptionStatus.success then []
        else
          [Sockets.bind socket self address] ++ if !o.bindStatus.success then [] else [Sockets.listen socket maxConnections]

/-- The calls of `asyncConnect`, in order. The connection itself is left to the ring. -/
def Connector.asyncConnectCalls (c : Connector) (protocol : DatagramProtocol) (o : SocketOutcome) : List SystemCall :=
  if c.connectionStatus = .PENDING then []
  else
    match o.resolved with
    | .error _ => []
    | .ok address =>
      [.socket address.ipVersion protocol,
        Sockets.setOption (c.assignSocket o.socket.returned).1.socket SO_REUSEADDR true]

/-- `listen`, from the host name on. An acceptor that is listening does not resolve it. -/
def Acceptor.listenAt (getaddrinfo : GetAddrInfo) (a : Acceptor) (protocol : DatagramProtocol) (address : StringView)
    (port : UInt16) (o : SocketOutcome) : Option (Attempt Acceptor) :=
  if a.listening then some (a.listen address.toString port o)
  else
    (resolve getaddrinfo address port protocol true).map fun resolved =>
      a.listen address.toString port { o with resolved }

/-- `asyncConnect`, from the host name on. -/
def Connector.asyncConnectTo (getaddrinfo : GetAddrInfo) (c : Connector) (self : Nat) (protocol : DatagramProtocol)
    (address : StringView) (port : UInt16) (o : SocketOutcome) : Option (Attempt Connector) :=
  if c.connectionStatus = .PENDING then some (c.asyncConnect self address.toString port o)
  else
    (resolve getaddrinfo address port protocol true).map fun resolved =>
      c.asyncConnect self address.toString port { o with resolved }

/-! ## The address the kernel is given -/

/-- An entry of one of the two families, with the length of its family. -/
structure AddrInfo.WellFormed (e : AddrInfo) : Prop where
  length : e.aiAddr.length = e.aiAddrlen
  family : (e.aiFamily = AF_INET ∧ e.aiAddrlen = SocketAddress.SIZEOF_SOCKADDR_IN) ∨
    (e.aiFamily = AF_INET6 ∧ e.aiAddrlen = SocketAddress.SIZEOF_SOCKADDR_IN6)

/-- A pointer and a length that give a reader the whole address of the entry. -/
def AddrInfo.At (e : AddrInfo) (m : Nat → UInt8) (addr addrlen : Nat) : Prop :=
  addrlen = e.aiAddrlen ∧ readAt m addr addrlen = e.aiAddr

/-- The call is about the entry: its family, or its address as the kernel reads it in `m`. -/
def SystemCall.Names (m : Nat → UInt8) (e : AddrInfo) : SystemCall → Prop
  | .socket domain _ => domain.toInt = e.aiFamily
  | .bind _ addr addrlen | .connect _ addr addrlen => e.At m addr addrlen
  | .setsockopt .. | .listen .. => True

/-- Whoever is given `address` is given the entry: the calls of `sockets.cpp`,
those of `listen` and `asyncConnect`, and the connect request. -/
structure Handed (e : AddrInfo) (address : SocketAddress) : Prop where
  version : address.ipVersion.toInt = e.aiFamily
  bind : ∀ m self socket, Stored m self address.bytes → (Sockets.bind socket self address).Names m e
  connect : ∀ m self socket, Stored m self address.bytes → (Sockets.connect socket self address).Names m e
  listen : ∀ m self (a : Acceptor) protocol maxConnections o, Stored m self address.bytes → o.resolved = .ok address →
    ∀ call ∈ a.listenCalls self protocol maxConnections o, call.Names m e
  asyncConnect : ∀ m (c : Connector) protocol o, o.resolved = .ok address →
    ∀ call ∈ c.asyncConnectCalls protocol o, call.Names m e
  request : ∀ m self (c : Connector) name port o fd addr addrlen, Stored m self address.bytes →
    o.resolved = .ok address → (c.asyncConnect self name port o).request = some (.connect fd addr addrlen) →
    e.At m addr addrlen

theorem asSockaddr_eq (self : Nat) (address : SocketAddress) :
    address.asSockaddr self = (self, SocketAddress.SIZEOF_SOCKADDR_IN) := by
  cases address <;> rfl

/-- It all comes down to the pointer and the length. -/
theorem handed_of {e : AddrInfo} {address : SocketAddress} (hv : address.ipVersion.toInt = e.aiFamily)
    (hat : ∀ m self, Stored m self address.bytes → e.At m self SocketAddress.SIZEOF_SOCKADDR_IN) : Handed e address where
  version := hv
  bind m self socket hm := by
    simp only [Sockets.bind, SystemCall.Names, asSockaddr_eq]
    exact hat m self hm
  connect m self socket hm := by
    simp only [Sockets.connect, SystemCall.Names, asSockaddr_eq]
    exact hat m self hm
  listen m self a protocol maxConnections o hm ho call hcall := by
    have hbind : (Sockets.bind (a.assignSocket o.socket.returned).1.listeningSocket self address).Names m e := by
      simp only [Sockets.bind, SystemCall.Names, asSockaddr_eq]
      exact hat m self hm
    unfold Acceptor.listenCalls at hcall
    rw [ho] at hcall
    split at hcall
    · cases hcall
    · simp only [List.cons_append, List.nil_append, List.mem_cons] at hcall
      rcases hcall with rfl | rfl | hcall
      · exact hv
      · trivial
      · split at hcall
        · cases hcall
        · rcases List.mem_cons.1 hcall with rfl | hcall
          · exact hbind
          · split at hcall
            · cases hcall
            · rw [List.mem_singleton.1 hcall]
              trivial
  asyncConnect m c protocol o ho call hcall := by
    unfold Connector.asyncConnectCalls at hcall
    rw [ho] at hcall
    split at hcall
    · cases hcall
    · simp only [List.mem_cons, List.not_mem_nil, or_false] at hcall
      rcases hcall with rfl | rfl
      · exact hv
      · trivial
  request m self c name port o fd addr addrlen hm ho hreq := by
    unfold Connector.asyncConnect at hreq
    rw [ho] at hreq
    simp only [asSockaddr_eq] at hreq
    split at hreq
    · cases hreq
    · split at hreq
      · cases hreq
      · cases hreq
        exact hat m self hm

/-- Every list of results: the family of the first entry is kept, and its
address is handed over whole if and only if that family is IPv4. -/
theorem address_handed_iff (getaddrinfo : GetAddrInfo) (hostname : StringView) (port : UInt16)
    (protocol : DatagramProtocol) (passive : Bool) {host : List Char} {first : AddrInfo} {rest : List AddrInfo}
    (hhost : hostname.data = some host)
    (hlist : getaddrinfo host (toString port.toNat) (hints protocol passive) = .ok (first :: rest))
    (hform : ∀ e ∈ first :: rest, e.WellFormed) :
    ∃ address, resolve getaddrinfo hostname port protocol passive = some (.ok address) ∧
      address.ipVersion.toInt = first.aiFamily ∧ (Handed first address ↔ first.aiFamily = AF_INET) := by
  obtain ⟨hlen, hfam⟩ := hform first List.mem_cons_self
  refine ⟨SocketAddress.ofResults (first :: rest), ?_, ?_⟩
  · rw [resolve, hhost, Option.map_some, hlist]
    rfl
  · rcases hfam with ⟨hf, hn⟩ | ⟨hf, hn⟩
    · have haddr : SocketAddress.ofResults (first :: rest) = .sockaddrIn first.aiAddr := by
        rw [SocketAddress.ofResults, if_pos hf, List.take_of_length_le (by rw [hlen, hn])]
      rw [haddr]
      refine ⟨hf.symm, fun _ => hf, fun _ => handed_of hf.symm fun m self hm => ⟨hn.symm, ?_⟩⟩
      rw [← hn, ← hlen]
      exact hm
    · have haddr : SocketAddress.ofResults (first :: rest) = .sockaddrIn6 first.aiAddr := by
        rw [SocketAddress.ofResults, if_neg (by rw [hf]; decide), List.take_of_length_le (by rw [hlen, hn])]
      rw [haddr]
      refine ⟨hf.symm, fun h => ?_, fun h => absurd (hf.symm.trans h) (by decide)⟩
      -- an IPv6 address is longer than what `bind` is told
      obtain ⟨m, hm⟩ := exists_stored 0 first.aiAddr
      have hshort := (h.bind m 0 {} hm).1
      rw [asSockaddr_eq, hn] at hshort
      cases hshort

/-- "localhost" in a buffer of its own. -/
def localhostView : StringView := ⟨"localhost".toList ++ [NUL], 0, 9, by decide⟩

def localhost4 : AddrInfo := ⟨AF_INET, [2, 0, 0, 80, 127, 0, 0, 1, 0, 0, 0, 0, 0, 0, 0, 0], 16⟩

def localhost6 : AddrInfo :=
  ⟨AF_INET6, [10, 0, 0, 80, 0, 0, 0, 0, 0, 0, 0, 0, 0, 0, 0, 0, 0, 0, 0, 0, 0, 0, 0, 1, 0, 0, 0, 0], 28⟩

theorem address_handed_iff_localhost :
    ∃ address, resolve (fun _ _ _ => .ok [localhost4, localhost6]) localhostView 80 .TCP true = some (.ok address) ∧
      Handed localhost4 address := by
  have hhost : localhostView.data = some "localhost".toList := by decide
  have hform : ∀ e ∈ [localhost4, localhost6], e.WellFormed := by
    simp only [List.forall_mem_cons]
    exact ⟨⟨rfl, .inl ⟨rfl, rfl⟩⟩, ⟨rfl, .inr ⟨rfl, rfl⟩⟩, by simp⟩
  obtain ⟨address, hr, -, hiff⟩ :=
    address_handed_iff (fun _ _ _ => .ok [localhost4, localhost6]) localhostView 80 .TCP true hhost rfl hform
  exact ⟨address, hr, hiff.2 rfl⟩

/-- "::1" in a buffer of its own. -/
def loopbackView : StringView := ⟨[':', ':', '1', NUL], 0, 3, by decide⟩

/-- The IPv6 loopback address: `bind` and `connect` are told 16 bytes of 28. -/
theorem ipv6_address_cut :
    localhost6.WellFormed ∧
      resolve (fun _ _ _ => .ok [localhost6]) loopbackView 80 .TCP true = some (.ok (.sockaddrIn6 localhost6.aiAddr)) ∧
      Sockets.bind ⟨5⟩ 4096 (.sockaddrIn6 localhost6.aiAddr) = .bind 5 4096 16 ∧
      ¬ Handed localhost6 (.sockaddrIn6 localhost6.aiAddr) := by
  refine ⟨⟨rfl, .inr ⟨rfl, rfl⟩⟩, by decide, rfl, fun h => ?_⟩
  obtain ⟨m, hm⟩ := exists_stored 0 localhost6.aiAddr
  have hshort := (h.bind m 0 {} hm).1
  cases hshort

/-! ## The host name that is asked for -/

/-- Whoever looks up either view asks for its characters, and gets the same answer. -/
structure SameLookup (v w : StringView) : Prop where
  asks : v.data = some v.chars ∧ w.data = some v.chars
  resolves : ∀ getaddrinfo port protocol passive,
    resolve getaddrinfo v port protocol passive = resolve getaddrinfo w port protocol passive
  listens : ∀ getaddrinfo (a : Acceptor) protocol port o,
    a.listenAt getaddrinfo protocol v port o = a.listenAt getaddrinfo protocol w port o
  connects : ∀ getaddrinfo (c : Connector) self protocol port o,
    c.asyncConnectTo getaddrinfo self protocol v port o = c.asyncConnectTo getaddrinfo self protocol w port o

/-- Two views of the same characters are looked up alike, and by these
characters, if and only if a NUL follows each of them. -/
theorem same_lookup_iff (v w : StringView) (hchars : v.chars = w.chars) (hnul : NUL ∉ v.chars) :
    SameLookup v w ↔ v.Terminated ∧ w.Terminated := by
  have hv := v.data_iff hnul
  have hw := w.data_iff (hchars ▸ hnul)
  constructor
  · rintro ⟨⟨h₁, h₂⟩, -, -, -⟩
    exact ⟨hv.1 h₁, hw.1 (hchars ▸ h₂)⟩
  · rintro ⟨h₁, h₂⟩
    have hdata : v.data = w.data := by rw [hv.2 h₁, hw.2 h₂, hchars]
    have htext : v.toString = w.toString := congrArg String.ofList hchars
    have hres : ∀ getaddrinfo port protocol passive,
        resolve getaddrinfo v port protocol passive = resolve getaddrinfo w port protocol passive := by
      intro getaddrinfo port protocol passive
      rw [resolve, hdata]
      rfl
    refine ⟨⟨hv.2 h₁, hdata ▸ hv.2 h₁⟩, hres, ?_, ?_⟩
    · intro getaddrinfo a protocol port o
      rw [Acceptor.listenAt, hres, htext]
      rfl
    · intro getaddrinfo c self protocol port o
      rw [Connector.asyncConnectTo, hres, htext]
      rfl

/-- "local" in the middle of a buffer with a NUL after it, and alone. -/
theorem same_lookup_iff_local :
    SameLookup ⟨['a', 'l', 'o', 'c', 'a', 'l', NUL, 'b'], 1, 5, by decide⟩ ⟨['l', 'o', 'c', 'a', 'l', NUL], 0, 5, by decide⟩ :=
  (same_lookup_iff _ _ (by decide) (by decide)).2 ⟨by decide, by decide⟩

/-- "h" as a part of "h:8" and alone: `getaddrinfo` is asked for "h:8" and for "h". -/
theorem host_of_longer_string :
    StringView.chars ⟨['h', ':', '8', NUL], 0, 1, by decide⟩ = StringView.chars ⟨['h', NUL], 0, 1, by decide⟩ ∧
      StringView.data ⟨['h', ':', '8', NUL], 0, 1, by decide⟩ = some ['h', ':', '8'] ∧
      ¬ SameLookup ⟨['h', ':', '8', NUL], 0, 1, by decide⟩ ⟨['h', NUL], 0, 1, by decide⟩ := by
  refine ⟨by decide, by decide, fun h => ?_⟩
  exact absurd h.asks.1 (by decide)

end RingNet
