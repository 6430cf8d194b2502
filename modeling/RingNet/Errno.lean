import RingNet.Objects
/-!
# Attempts and `errno`

The statuses of `set_option`, `bind` and `listen` are made of `errno`, which
only a failing call sets. So what `listen` and `asyncConnect` answer depends
on what was in `errno` when they were called, and with it on every attempt
before: `reports_right_iff` says on which.

An attempt here is on an object that is free to make one, with an address that
resolves: resolving it, and closing the socket that is replaced, leave `errno`
alone. An attempt whose address does not resolve ends before any of these
calls and is not among them; its failing `getaddrinfo` can leave `errno` not 0
too, which then is the `errno` the next attempts start with.
-/

namespace RingNet

def SysResult.succeeded : SysResult → Bool
  | .ok _ => true
  | .error _ => false

/-- How the calls of an attempt go: one that fails sets `errno` to a code that is not 0. -/
structure SocketCalls where
  socket : SysResult
  setOption : SysResult
  bind : SysResult
  listen : SysResult
  codes : ∀ r ∈ [socket, setOption, bind, listen], r ≠ .error 0

namespace SocketCalls

def outcome (k : SocketCalls) (address : SocketAddress) (errno : Int) : SocketOutcome :=
  { resolved := .ok address, errno, socket := k.socket, setOption := k.setOption, bind := k.bind, listen := k.listen }

end SocketCalls

/-- A call of `listen` or `asyncConnect` that is not turned away, and how its system calls go. -/
inductive Attempted
  | listen (a : Acceptor) (free : a.listening = false) (name : String) (port : UInt16) (address : SocketAddress)
    (calls : SocketCalls)
  | asyncConnect (c : Connector) (free : c.connectionStatus ≠ .PENDING) (self : Nat) (name : String) (port : UInt16)
    (address : SocketAddress) (calls : SocketCalls)

namespace Attempted

/-- What is reported to the caller. -/
def reports (errno : Int) : Attempted → Bool
  | .listen a _ name port address k => (a.listen name port (k.outcome address errno)).status.success
  | .asyncConnect c _ self name port address k =>
    (c.asyncConnect self name port (k.outcome address errno)).status.success

/-- Whether every call the attempt consists of succeeds. -/
def succeeds : Attempted → Bool
  | .listen _ _ _ _ _ k => k.socket.succeeded && k.setOption.succeeded && k.bind.succeeded && k.listen.succeeded
  | .asyncConnect _ _ _ _ _ _ k => k.socket.succeeded && k.setOption.succeeded

/-- `errno` when the attempt returns: what the last call it made left. -/
def errnoAfter (errno : Int) : Attempted → Int
  | .listen _ _ _ _ address k =>
    let o := k.outcome address errno
    if !o.setOptionStatus.success then o.errnoAfterSetOption
    else if !o.bindStatus.success then o.errnoAfterBind
    else o.errnoAfterListen
  | .asyncConnect _ _ _ _ _ address k => (k.outcome address errno).errnoAfterSetOption

/-- Attempts one after the other, each answered by how its own calls went. -/
def AllReported (errno : Int) : List Attempted → Prop
  | [] => True
  | x :: xs => x.reports errno = x.succeeds ∧ AllReported (x.errnoAfter errno) xs

end Attempted

/-! ## One attempt -/

theorem SysResult.errno_eq_zero {r : SysResult} (h : r ≠ .error 0) (errno : Int) :
    r.errno errno = 0 ↔ r.succeeded = true ∧ errno = 0 := by
  cases r with
  | ok v => simp [SysResult.errno, SysResult.succeeded]
  | error code =>
    have hc : code ≠ 0 := fun e => h (by rw [e])
    simp [SysResult.errno, SysResult.succeeded, hc]

namespace SocketCalls

variable (k : SocketCalls) (address : SocketAddress) (errno : Int)

/-- The first status is a success if nothing failed yet, in this attempt or before. -/
theorem setOption_success : (k.outcome address errno).setOptionStatus.success = true ↔
    k.socket.succeeded = true ∧ k.setOption.succeeded = true ∧ errno = 0 := by
  have h₁ := k.codes k.socket (by simp)
  have h₂ := k.codes k.setOption (by simp)
  simp only [SocketOutcome.setOptionStatus, FileDescriptorStatus.make, FileDescriptorStatus.success, if_true, beq_iff_eq,
    SocketOutcome.errnoAfterSetOption, SocketOutcome.errnoAfterSocket, outcome, SysResult.errno_eq_zero h₂,
    SysResult.errno_eq_zero h₁]
  exact and_left_comm

theorem bind_success : (k.outcome address errno).bindStatus.success = true ↔
    k.bind.succeeded = true ∧ (k.outcome address errno).setOptionStatus.success = true := by
  have h := k.codes k.bind (by simp)
  simp only [SocketOutcome.bindStatus, SocketOutcome.setOptionStatus, FileDescriptorStatus.make,
    FileDescriptorStatus.success, if_true, beq_iff_eq, SocketOutcome.errnoAfterBind]
  exact SysResult.errno_eq_zero h _

theorem listen_success : (k.outcome address errno).listenStatus.success = true ↔
    k.listen.succeeded = true ∧ (k.outcome address errno).bindStatus.success = true := by
  have h := k.codes k.listen (by simp)
  simp only [SocketOutcome.listenStatus, SocketOutcome.bindStatus, FileDescriptorStatus.make,
    FileDescriptorStatus.success, if_true, beq_iff_eq, SocketOutcome.errnoAfterListen]
  exact SysResult.errno_eq_zero h _

end SocketCalls

/-- `listen` looks at three statuses. -/
theorem Acceptor.listen_success {a : Acceptor} (free : a.listening = false) (name : String) (port : UInt16)
    {o : SocketOutcome} {address : SocketAddress} (ho : o.resolved = .ok address) :
    (a.listen name port o).status.success =
      (o.setOptionStatus.success && o.bindStatus.success && o.listenStatus.success) := by
  rw [listen, ho, free]
  cases o.setOptionStatus.success <;> cases o.bindStatus.success <;> cases o.listenStatus.success <;> rfl

/-- `asyncConnect` looks at one. -/
theorem Connector.asyncConnect_success {c : Connector} (free : c.connectionStatus ≠ .PENDING) (self : Nat)
    (name : String) (port : UInt16) {o : SocketOutcome} {address : SocketAddress} (ho : o.resolved = .ok address) :
    (c.asyncConnect self name port o).status.success = o.setOptionStatus.success := by
  rw [asyncConnect, ho, if_neg free]
  cases o.setOptionStatus.success <;> simp [errorAbout, addStatus]

namespace Attempted

/-- Success is reported if every call succeeds and `errno` was 0. -/
theorem reports_iff (x : Attempted) (errno : Int) : x.reports errno = true ↔ x.succeeds = true ∧ errno = 0 := by
  cases x with
  | listen a free name port address k =>
    rw [reports, Acceptor.listen_success free name port rfl]
    simp only [Bool.and_eq_true, k.listen_success, k.bind_success, k.setOption_success, succeeds]
    constructor
    · rintro ⟨⟨⟨hs, ho, h0⟩, hb, -⟩, hl, -⟩
      exact ⟨⟨⟨⟨hs, ho⟩, hb⟩, hl⟩, h0⟩
    · rintro ⟨⟨⟨⟨hs, ho⟩, hb⟩, hl⟩, h0⟩
      exact ⟨⟨⟨hs, ho, h0⟩, hb, hs, ho, h0⟩, hl, hb, hs, ho, h0⟩
  | asyncConnect c free self name port address k =>
    rw [reports, Connector.asyncConnect_success free self name port rfl, k.setOption_success]
    simp only [succeeds, Bool.and_eq_true, and_assoc]

/-- `errno` is 0 after an attempt if and only if it reports success. -/
theorem errnoAfter_eq_zero (x : Attempted) (errno : Int) :
    x.errnoAfter errno = 0 ↔ x.succeeds = true ∧ errno = 0 := by
  rw [← reports_iff]
  cases x with
  | listen a free name port address k =>
    have hopt : (k.outcome address errno).setOptionStatus.success = ((k.outcome address errno).errnoAfterSetOption == 0) := rfl
    have hbind : (k.outcome address errno).bindStatus.success = ((k.outcome address errno).errnoAfterBind == 0) := rfl
    have hlisten : (k.outcome address errno).listenStatus.success = ((k.outcome address errno).errnoAfterListen == 0) := rfl
    rw [reports, Acceptor.listen_success free name port rfl, errnoAfter, hopt, hbind, hlisten]
    -- a status that is no failure leaves `errno` to the next
    by_cases h₁ : (k.outcome address errno).errnoAfterSetOption = 0
    · by_cases h₂ : (k.outcome address errno).errnoAfterBind = 0
      · simp [h₁, h₂]
      · simp [h₁, h₂]
    · simp [h₁]
  | asyncConnect c free self name port address k =>
    rw [reports, Connector.asyncConnect_success free self name port rfl]
    exact beq_iff_eq.symm

/-! ## One after the other -/

/-- In a process that starts with `errno`, every attempt reports how its own
calls went if and only if an attempt whose calls all succeed finds `errno` 0:
it was 0 at the start, and no earlier attempt failed. -/
theorem reports_right_iff (errno : Int) (xs : List Attempted) : AllReported errno xs ↔
    ∀ before x after, xs = before ++ x :: after → x.succeeds = true → errno = 0 ∧ ∀ y ∈ before, y.succeeds = true := by
  induction xs generalizing errno with
  | nil => simp [AllReported]
  | cons x xs ih =>
    have hx : x.reports errno = x.succeeds ↔ (x.succeeds = true → errno = 0) := by
      rw [Bool.eq_iff_iff, reports_iff]
      tauto
    rw [AllReported, hx, ih, errnoAfter_eq_zero]
    constructor
    · rintro ⟨hfirst, hrest⟩ before y after he hy
      cases before with
      | nil =>
        obtain ⟨rfl, rfl⟩ := List.cons.inj he
        exact ⟨hfirst hy, by simp⟩
      | cons z before =>
        obtain ⟨rfl, rfl⟩ := List.cons.inj he
        obtain ⟨⟨hx, h0⟩, hall⟩ := hrest before y after rfl hy
        exact ⟨h0, List.forall_mem_cons.2 ⟨hx, hall⟩⟩
    · intro h
      refine ⟨fun hy => (h [] x xs rfl hy).1, fun before y after he hy => ?_⟩
      obtain ⟨h0, hall⟩ := h (x :: before) y after (by rw [he]; rfl) hy
      obtain ⟨hx, hall⟩ := List.forall_mem_cons.1 hall
      exact ⟨⟨hx, h0⟩, hall⟩

/-- An attempt to listen on a port that is in use. -/
def portInUse : Attempted :=
  .listen { subscriber := 0 } rfl "host" 80 (.sockaddrIn []) ⟨.ok 5, .ok 0, .error 98, .ok 0, by decide⟩

/-- An attempt on another port, by another acceptor. -/
def otherPort : Attempted :=
  .listen { subscriber := 1 } rfl "host" 81 (.sockaddrIn []) ⟨.ok 6, .ok 0, .ok 0, .ok 0, by decide⟩

/-- The second attempt goes well and reports the code of the first. -/
theorem failure_reported_again :
    portInUse.reports 0 = false ∧ portInUse.errnoAfter 0 = 98 ∧ otherPort.succeeds = true ∧
      otherPort.reports 98 = false ∧ ¬ AllReported 0 [portInUse, otherPort] := by
  refine ⟨by decide, by decide, by decide, by decide, fun h => ?_⟩
  exact absurd h.2.1 (by decide)

end Attempted

end RingNet
