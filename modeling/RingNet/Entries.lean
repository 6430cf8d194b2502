import RingNet.SubmissionQueue
/-!
# Submission entries, field by field

`struct io_uring_sqe`, the `io_uring_prep_*` helpers `submissionQueue.cpp`
uses, and its five `prepare` overloads and `cancel` written with them. The
helpers write the fields their operation has and leave the others as they
are, and a slot is handed out again with what its last user left in it;
`io_uring_get_sqe` clears some of the fields, not all.

`RawSqe.read` is how an entry is understood at the other end. It looks at
every field. What is read from an entry that `prepare` has filled is the
request it was filled from, with sizes and addresses cut to the widths of the
fields (`Prep.narrow`), whatever was in the slot before.
-/

namespace RingNet

/-- `struct io_uring_sqe`. The members of a union stand once, under the first
name the helpers use: `off` is also `addr2`, `rwFlags` also `accept_flags` and
`cancel_flags`, and `bufIndex` also `buf_group`. -/
structure RawSqe where
  opcode : UInt8 := 0
  flags : UInt8 := 0
  ioprio : UInt16 := 0
  fd : Fd := 0
  off : UInt64 := 0
  addr : UInt64 := 0
  len : UInt32 := 0
  rwFlags : UInt32 := 0
  userData : UInt64 := 0
  bufIndex : UInt16 := 0
  personality : UInt16 := 0
  fileIndex : UInt32 := 0
  addr3 : UInt64 := 0
  pad2 : UInt64 := 0
  deriving DecidableEq, Repr

def IORING_OP_NOP : UInt8 := 0
def IORING_OP_ACCEPT : UInt8 := 13
def IORING_OP_ASYNC_CANCEL : UInt8 := 14
def IORING_OP_CONNECT : UInt8 := 16
def IORING_OP_READ : UInt8 := 22
def IORING_OP_WRITE : UInt8 := 23
def IORING_OP_READ_MULTISHOT : UInt8 := 49

def IOSQE_BUFFER_SELECT : UInt8 := (1 : UInt8) <<< 5
def IORING_ACCEPT_MULTISHOT : UInt16 := (1 : UInt16) <<< 0
def IORING_ASYNC_CANCEL_ALL : UInt32 := (1 : UInt32) <<< 0
def IORING_ASYNC_CANCEL_FD : UInt32 := (1 : UInt32) <<< 1

namespace RawSqe

/-- `io_uring_initialize_sqe`. -/
def initializeSqe (e : RawSqe) : RawSqe :=
  { e with flags := 0, ioprio := 0, rwFlags := 0, bufIndex := 0, personality := 0, fileIndex := 0, addr3 := 0, pad2 := 0 }

/-! ## The helpers -/

def prepRw (e : RawSqe) (op : UInt8) (fd : Fd) (addr : UInt64) (len : UInt32) (offset : UInt64) : RawSqe :=
  { e with opcode := op, fd := fd, off := offset, addr := addr, len := len }

def prepAccept (e : RawSqe) (fd : Fd) (addr addrlen : UInt64) (flags : UInt32) : RawSqe :=
  { e.prepRw IORING_OP_ACCEPT fd addr 0 addrlen with rwFlags := flags }

def prepMultishotAccept (e : RawSqe) (fd : Fd) (addr addrlen : UInt64) (flags : UInt32) : RawSqe :=
  let e := e.prepAccept fd addr addrlen flags
  { e with ioprio := e.ioprio ||| IORING_ACCEPT_MULTISHOT }

def prepConnect (e : RawSqe) (fd : Fd) (addr : UInt64) (addrlen : UInt32) : RawSqe :=
  e.prepRw IORING_OP_CONNECT fd addr 0 addrlen.toUInt64

def prepRead (e : RawSqe) (fd : Fd) (buf : UInt64) (nbytes : UInt32) (offset : UInt64) : RawSqe :=
  e.prepRw IORING_OP_READ fd buf nbytes offset

def prepWrite (e : RawSqe) (fd : Fd) (buf : UInt64) (nbytes : UInt32) (offset : UInt64) : RawSqe :=
  e.prepRw IORING_OP_WRITE fd buf nbytes offset

def prepReadMultishot (e : RawSqe) (fd : Fd) (nbytes : UInt32) (offset : UInt64) (bufGroup : UInt16) : RawSqe :=
  { e.prepRw IORING_OP_READ_MULTISHOT fd 0 nbytes offset with bufIndex := bufGroup, flags := IOSQE_BUFFER_SELECT }

def prepCancelFd (e : RawSqe) (fd : Fd) (flags : UInt32) : RawSqe :=
  { e.prepRw IORING_OP_ASYNC_CANCEL fd 0 0 0 with rwFlags := flags ||| IORING_ASYNC_CANCEL_FD }

/-- `io_uring_sqe_set_data`. -/
def setData (e : RawSqe) (data : Nat) : RawSqe := { e with userData := UInt64.ofNat data }

/-! ## What the program writes -/

/-- The `prepare` overload for each request type, for a request at `ptr`.
Sizes are `size_t` in the request and `unsigned` in the helpers. -/
def prepare (e : RawSqe) (ptr : Nat) : Request → RawSqe
  | .accept listeningSocketFd => (e.prepMultishotAccept listeningSocketFd 0 0 0).setData ptr
  | .connect socketFd addr addrlen => (e.prepConnect socketFd (UInt64.ofNat addr) (UInt32.ofNat addrlen)).setData ptr
  | .write fd bytes => (e.prepWrite fd (UInt64.ofNat bytes.data) (UInt32.ofNat bytes.size) 0).setData ptr
  | .read fd buf => (e.prepRead fd (UInt64.ofNat buf.data) (UInt32.ofNat buf.size) 0).setData ptr
  | .multiShotRead fd group =>
    let e := { e with flags := e.flags ||| IOSQE_BUFFER_SELECT, bufIndex := group }
    (e.prepReadMultishot fd 0 0 group).setData ptr

/-- `SubmissionQueue::cancel`, which sets no data. -/
def cancel (e : RawSqe) (fd : Fd) : RawSqe := e.prepCancelFd fd (IORING_ASYNC_CANCEL_ALL ||| IORING_ASYNC_CANCEL_FD)

/-! ## What is read -/

/-- The fields that none of the operations has. -/
def clean (e : RawSqe) : Bool := e.personality == 0 && e.fileIndex == 0 && e.addr3 == 0 && e.pad2 == 0

/-- The operation an entry asks for; an entry with anything in a field its
operation does not have asks for none. -/
def read (e : RawSqe) : Option Prep :=
  if !e.clean then none
  else if e.opcode = IORING_OP_NOP then
    if e.flags = 0 ∧ e.ioprio = 0 ∧ e.off = 0 ∧ e.addr = 0 ∧ e.len = 0 ∧ e.rwFlags = 0 ∧ e.bufIndex = 0 then some .nop
    else none
  else if e.opcode = IORING_OP_ACCEPT then
    if e.flags = 0 ∧ e.ioprio = IORING_ACCEPT_MULTISHOT ∧ e.off = 0 ∧ e.addr = 0 ∧ e.len = 0 ∧ e.rwFlags = 0 ∧
        e.bufIndex = 0 then some (.multishotAccept e.fd)
    else none
  else if e.opcode = IORING_OP_CONNECT then
    if e.flags = 0 ∧ e.ioprio = 0 ∧ e.len = 0 ∧ e.rwFlags = 0 ∧ e.bufIndex = 0 then
      some (.connect e.fd e.addr.toNat e.off.toNat)
    else none
  else if e.opcode = IORING_OP_READ then
    if e.flags = 0 ∧ e.ioprio = 0 ∧ e.off = 0 ∧ e.rwFlags = 0 ∧ e.bufIndex = 0 then
      some (.read e.fd ⟨e.addr.toNat, e.len.toNat⟩)
    else none
  else if e.opcode = IORING_OP_WRITE then
    if e.flags = 0 ∧ e.ioprio = 0 ∧ e.off = 0 ∧ e.rwFlags = 0 ∧ e.bufIndex = 0 then
      some (.write e.fd ⟨e.addr.toNat, e.len.toNat⟩)
    else none
  else if e.opcode = IORING_OP_READ_MULTISHOT then
    if e.flags = IOSQE_BUFFER_SELECT ∧ e.ioprio = 0 ∧ e.off = 0 ∧ e.addr = 0 ∧ e.len = 0 ∧ e.rwFlags = 0 then
      some (.readMultishot e.fd e.bufIndex)
    else none
  else if e.opcode = IORING_OP_ASYNC_CANCEL then
    if e.flags = 0 ∧ e.ioprio = 0 ∧ e.off = 0 ∧ e.addr = 0 ∧ e.len = 0 ∧
        e.rwFlags = IORING_ASYNC_CANCEL_ALL ||| IORING_ASYNC_CANCEL_FD ∧ e.bufIndex = 0 then some (.cancelFd e.fd)
    else none
  else none

end RawSqe

/-- A span in an entry: the address has 64 bits, the size 32. -/
def Span.narrow (s : Span) : Span := ⟨s.data % 2 ^ 64, s.size % 2 ^ 32⟩

/-- What fits into the fields. -/
def Prep.narrow : Prep → Prep
  | .connect fd addr addrlen => .connect fd (addr % 2 ^ 64) (addrlen % 2 ^ 32)
  | .read fd buf => .read fd buf.narrow
  | .write fd buf => .write fd buf.narrow
  | p => p

/-- The numbers of a request fit into the fields. -/
def Prep.fits : Prep → Prop
  | .connect _ addr addrlen => addr < 2 ^ 64 ∧ addrlen < 2 ^ 32
  | .read _ buf | .write _ buf => buf.data < 2 ^ 64 ∧ buf.size < 2 ^ 32
  | _ => True

theorem Prep.narrow_eq_iff (p : Prep) : p.narrow = p ↔ p.fits := by
  cases p with
  | connect fd addr addrlen => simp only [narrow, fits, connect.injEq, true_and, Nat.mod_eq_iff_lt (by decide : 2 ^ 64 ≠ 0),
      Nat.mod_eq_iff_lt (by decide : 2 ^ 32 ≠ 0)]
  | read fd buf | write fd buf =>
    obtain ⟨data, size⟩ := buf
    simp only [narrow, fits, Span.narrow, read.injEq, write.injEq, Span.mk.injEq, true_and,
      Nat.mod_eq_iff_lt (by decide : 2 ^ 64 ≠ 0), Nat.mod_eq_iff_lt (by decide : 2 ^ 32 ≠ 0)]
  | _ => simp [narrow, fits]

instance Prep.decidableFits (p : Prep) : Decidable p.fits := decidable_of_iff _ p.narrow_eq_iff

/-- The entry `x` says what the model's entry `e` says. -/
structure Says (x : RawSqe) (e : Sqe) : Prop where
  read : x.read = some e.prep.narrow
  userData : x.userData = UInt64.ofNat e.userData

theorem RawSqe.read_initial : ({} : RawSqe).read = some .nop := by decide

/-- A filled entry is read as the request it was filled from, whatever the slot held. -/
theorem RawSqe.prepare_says (e : RawSqe) (x : Pending) (request : Request) :
    Says (e.initializeSqe.prepare x.ptr request) (SubmissionQueue.entryFor x request) := by
  constructor
  · cases request <;>
      simp [prepare, initializeSqe, setData, prepMultishotAccept, prepAccept, prepConnect, prepWrite, prepRead,
        prepReadMultishot, prepRw, read, clean, SubmissionQueue.entryFor, Request.prep, Prep.narrow, Span.narrow,
        IORING_OP_NOP, IORING_OP_ACCEPT, IORING_OP_CONNECT, IORING_OP_READ, IORING_OP_WRITE, IORING_OP_READ_MULTISHOT,
        IORING_ACCEPT_MULTISHOT, IOSQE_BUFFER_SELECT]
  · cases request <;> rfl

/-- A cancel's entry is read as one, and keeps the data that was in the slot. -/
theorem RawSqe.cancel_says (e : RawSqe) (fd : Fd) :
    (e.initializeSqe.cancel fd).read = some (.cancelFd fd) ∧ (e.initializeSqe.cancel fd).userData = e.userData := by
  refine ⟨?_, rfl⟩
  simp [cancel, initializeSqe, prepCancelFd, prepRw, read, clean, IORING_OP_NOP, IORING_OP_ACCEPT, IORING_OP_CONNECT,
    IORING_OP_READ, IORING_OP_WRITE, IORING_OP_READ_MULTISHOT, IORING_OP_ASYNC_CANCEL, IORING_ASYNC_CANCEL_ALL,
    IORING_ASYNC_CANCEL_FD]
  decide

end RingNet
