import RingNet.Liburing
/-!
# The ring of provided buffers

`uring/bufferRing.hpp` and the liburing helpers it uses. The program writes
slots past the 16-bit tail and advances it; the kernel takes a buffer from the
slot at its own 16-bit head. `get` and `release` find the buffer id in the
upper half of a completion's flags. Both test `flags | IORING_CQE_F_BUFFER`,
which no flags make zero.
-/

namespace RingNet

open Lib

/-- `struct io_uring_buf`. -/
structure Buf where
  addr : Nat := 0
  len : Nat := 0
  bid : UInt16 := 0
  deriving DecidableEq, Repr

/-- A registered buffer ring, and the kernel's head in it. `id` tells rings
that were set up apart. -/
structure BufRing where
  id : Nat
  ringEntries : Nat
  bufs : Nat → Buf := fun _ => {}
  tail : UInt16 := 0
  head : UInt16 := 0

namespace BufRing

/-- `io_uring_buf_ring_mask`. -/
def mask (ringEntries : Nat) : Nat := ringEntries - 1

/-- `io_uring_buf_ring_add`. -/
def add (r : BufRing) (addr len : Nat) (bid : UInt16) (mask bufOffset : Nat) : BufRing :=
  { r with bufs := Function.update r.bufs ((r.tail.toNat + bufOffset) &&& mask) ⟨addr, len, bid⟩ }

/-- `io_uring_buf_ring_advance`. -/
def advance (r : BufRing) (count : Nat) : BufRing := { r with tail := r.tail + UInt16.ofNat count }

/-- The kernel takes the buffer at its head, if there is one. -/
def select (r : BufRing) : Option (UInt16 × BufRing) :=
  if r.head = r.tail then none
  else some ((r.bufs (r.head.toNat &&& mask r.ringEntries)).bid, { r with head := r.head + 1 })

/-- How many slots are between head and tail. -/
def waiting (r : BufRing) : Nat := (r.tail - r.head).toNat

/-- The slots between head and tail, in the order the kernel takes them. -/
def slots (r : BufRing) : List Buf := window r.bufs r.ringEntries r.head.toNat r.waiting

/-- The buffer ids available to the kernel. -/
def available (r : BufRing) : List Nat := r.slots.map (·.bid.toNat)

end BufRing

/-- A call that registers a buffer ring (with what it returned) or frees one. -/
inductive BufRingCall
  | setup (ring : Option Nat) (entries : Nat)
  | free (ring : Nat) (entries : Nat)
  deriving DecidableEq, Repr

/-- `calls` is for the proofs only: the calls of `io_uring_setup_buf_ring` and
`io_uring_free_buf_ring`, oldest first. -/
structure BufferRing where
  bufferRing : Option BufRing := none
  buffers : List Span := []
  calls : List BufRingCall := []

def BUFFER_GROUP_ID : UInt16 := 1

namespace BufferRing

def isPowerOfTwo (n : UInt64) : Bool := n &&& (n - 1) == 0

/-- The loop of `setupBuffers`: slot `tail + id` gets buffer `id`. -/
def fill (r : BufRing) (buffers : List Span) : BufRing :=
  buffers.zipIdx.foldl
    (fun r (b, id) => r.add b.data b.size (UInt16.ofNat id) (BufRing.mask buffers.length) id) r

/-- `status` is what `io_uring_setup_buf_ring` reports: 0 if it succeeds. -/
def setupBuffers (b : BufferRing) (buffers : List Span) (status : Int) : MessagedStatus × BufferRing :=
  if !isPowerOfTwo (UInt64.ofNat buffers.length) then
    (⟨false, .text "The number of entries must be a power of two"⟩, b)
  else
    let freed := match b.bufferRing with
      | some r => [BufRingCall.free r.id b.buffers.length]
      | none => []
    let id := b.calls.length
    if status ≠ 0 then
      (⟨false, .strerror (-status)⟩,
        { bufferRing := none, buffers, calls := b.calls ++ freed ++ [.setup none buffers.length] })
    else
      let r := (fill { id, ringEntries := buffers.length } buffers).advance buffers.length
      (⟨true, .text "Buffers added"⟩,
        { bufferRing := some r, buffers, calls := b.calls ++ freed ++ [.setup (some id) buffers.length] })

def get (b : BufferRing) (cqe : Cqe) : Option Span :=
  -- the flags are or-ed with the mask, so the test never fires
  if cqe.flags ||| IORING_CQE_F_BUFFER = 0 then none
  else b.buffers[cqe.bufferId]?

def release (b : BufferRing) (cqe : Cqe) : Except Fault BufferRing :=
  if cqe.flags ||| IORING_CQE_F_BUFFER = 0 then .ok b
  else
    match b.buffers[cqe.bufferId]?, b.bufferRing with
    | some buffer, some r =>
      let r := r.add buffer.data buffer.size (UInt16.ofNat cqe.bufferId) (BufRing.mask b.buffers.length) 0
      .ok { b with bufferRing := some (r.advance 1) }
    | _, _ => .error .bufferIndex

/-- The kernel takes a buffer for a completion. -/
def select (b : BufferRing) : Option (UInt16 × BufferRing) :=
  match b.bufferRing with
  | none => none
  | some r => r.select.map fun (bid, r) => (bid, { b with bufferRing := some r })

/-- The buffer ids available to the kernel. -/
def available (b : BufferRing) : List Nat :=
  match b.bufferRing with
  | none => []
  | some r => r.available

end BufferRing

/-! ## The slots between head and tail are a queue -/

namespace BufRing

theorem tail_eq (r : BufRing) : r.tail.toNat = (r.head.toNat + r.waiting) % 2 ^ 16 := by
  have h1 := r.tail.toNat_lt
  have h2 := r.head.toNat_lt
  unfold waiting
  rw [UInt16.toNat_sub]
  omega

theorem waiting_advance (r : BufRing) (n : Nat) (h : r.waiting + n < 2 ^ 16) :
    (r.advance n).waiting = r.waiting + n := by
  have h1 := r.tail.toNat_lt
  have h2 := r.head.toNat_lt
  simp only [waiting, advance, UInt16.toNat_sub, UInt16.toNat_add, UInt16.toNat_ofNat'] at h ⊢
  omega

@[simp] theorem add_waiting (r : BufRing) (a l : Nat) (bid : UInt16) (m o : Nat) :
    (r.add a l bid m o).waiting = r.waiting := rfl

/-- With a power of two of slots the mask is a remainder, and the tail may be
read off the free-running counter `head + waiting`. -/
theorem tail_slot (r : BufRing) {k : Nat} (hk : r.ringEntries = 2 ^ k) (hk16 : k ≤ 16) (o : Nat) :
    (r.tail.toNat + o) &&& mask r.ringEntries = (r.head.toNat + (r.waiting + o)) % r.ringEntries := by
  rw [mask, hk, Nat.and_two_pow_sub_one_eq_mod, tail_eq, Nat.add_mod, Nat.mod_mod_of_dvd _ (Nat.pow_dvd_pow 2 hk16),
    ← Nat.add_mod, Nat.add_assoc]

/-- Adding a buffer at the tail of a ring that is not full, and advancing. -/
theorem slots_push (r : BufRing) {k : Nat} (hk : r.ringEntries = 2 ^ k) (hk15 : k ≤ 15)
    (hlt : r.waiting < r.ringEntries) (addr len : Nat) (bid : UInt16) :
    ((r.add addr len bid (mask r.ringEntries) 0).advance 1).slots = r.slots ++ [⟨addr, len, bid⟩] := by
  have hpow : (2 : Nat) ^ k ≤ 2 ^ 15 := Nat.pow_le_pow_right (by omega) hk15
  have hw := (r.add addr len bid (mask r.ringEntries) 0).waiting_advance 1 (by rw [add_waiting]; omega)
  rw [add_waiting] at hw
  have hslot := tail_slot r hk (by omega) 0
  simp only [Nat.add_zero] at hslot
  simp only [slots, hw]
  simp only [advance, add, Nat.add_zero, hslot]
  exact window_push _ _ _ _ _ hlt

/-- The kernel takes the first slot. -/
theorem slots_select {r r' : BufRing} {k : Nat} {bid : UInt16} (hk : r.ringEntries = 2 ^ k) (hk16 : k ≤ 16)
    (h : r.select = some (bid, r')) :
    r'.ringEntries = r.ringEntries ∧ r'.bufs = r.bufs ∧ ∃ b, b.bid = bid ∧ r.slots = b :: r'.slots := by
  unfold select at h
  split at h
  · cases h
  · rename_i hne
    simp only [Option.some.injEq, Prod.mk.injEq] at h
    obtain ⟨rfl, rfl⟩ := h
    refine ⟨rfl, rfl, _, rfl, ?_⟩
    have h1 := r.tail.toNat_lt
    have h2 := r.head.toNat_lt
    have hne' : r.head.toNat ≠ r.tail.toNat := fun e => hne (UInt16.toNat.inj e)
    have hone : (1 : UInt16).toNat = 1 := rfl
    have hw : r.waiting = (r.tail - (r.head + 1)).toNat + 1 := by
      simp only [waiting, UInt16.toNat_sub, UInt16.toNat_add, hone]
      omega
    simp only [slots, waiting] at hw ⊢
    rw [hw, window_cons, mask, hk, Nat.and_two_pow_sub_one_eq_mod, UInt16.toNat_add, hone,
      window_mod _ _ _ _ (Nat.pow_dvd_pow 2 hk16)]

/-- `setupBuffers` writes each slot once, in order. -/
theorem fill_slots (r : BufRing) (buffers : List Span) (hr : r.tail = 0) {k : Nat} (hk : buffers.length = 2 ^ k)
    (j : Nat) (b : Span) (hj : buffers[j]? = some b) :
    (BufferRing.fill r buffers).bufs j = ⟨b.data, b.size, UInt16.ofNat j⟩ := by
  -- the fold over the buffers from the `i`-th on leaves slots below `i` alone
  have main : ∀ (l : List Span) (i : Nat) (r : BufRing), r.tail = 0 → i + l.length ≤ buffers.length →
      ((l.zipIdx i).foldl (fun r (b, id) => r.add b.data b.size (UInt16.ofNat id) (mask buffers.length) id) r).bufs j =
        if i ≤ j then (l[j - i]?.map fun b => (⟨b.data, b.size, UInt16.ofNat j⟩ : Buf)).getD (r.bufs j)
        else r.bufs j := by
    intro l
    induction l with
    | nil => intro i r _ _; simp
    | cons b l ih =>
      intro i r hr hlen
      simp only [List.length_cons] at hlen
      simp only [List.zipIdx_cons, List.foldl_cons]
      rw [ih (i + 1) _ (by simpa [add] using hr) (by omega)]
      have hslot : (r.tail.toNat + i) &&& mask buffers.length = i := by
        rw [hr, mask, hk, Nat.and_two_pow_sub_one_eq_mod, Nat.mod_eq_of_lt (by rw [← hk]; simp; omega)]
        simp
      by_cases hij : i = j
      · subst hij
        simp [add, hslot]
      · have hb : (r.add b.data b.size (UInt16.ofNat i) (mask buffers.length) i).bufs j = r.bufs j := by
          simp only [add, hslot]
          exact Function.update_of_ne (fun e => hij e.symm) _ _
        rw [hb]
        by_cases hle : i + 1 ≤ j
        · rw [if_pos hle, if_pos (by omega), show j - i = j - (i + 1) + 1 by omega, List.getElem?_cons_succ]
        · rw [if_neg hle, if_neg (by omega)]
  have := main buffers 0 r hr (by omega)
  rw [BufferRing.fill, this]
  simp [hj]

/-- Filling writes slots only. -/
theorem fill_eq (r : BufRing) (buffers : List Span) :
    BufferRing.fill r buffers = { r with bufs := (BufferRing.fill r buffers).bufs } := by
  have main : ∀ (m : Nat) (l : List (Span × Nat)) (r : BufRing),
      l.foldl (fun r (b, id) => r.add b.data b.size (UInt16.ofNat id) m id) r =
        { r with bufs := (l.foldl (fun r (b, id) => r.add b.data b.size (UInt16.ofNat id) m id) r).bufs } := by
    intro m l
    induction l with
    | nil => intro r; rfl
    | cons x l ih => intro r; rw [List.foldl_cons, ih]; rfl
  exact main _ _ _

/-- What `setupBuffers` registers: a ring filled with the buffers and advanced past them. -/
def filled (id : Nat) (buffers : List Span) : BufRing :=
  (BufferRing.fill { id, ringEntries := buffers.length } buffers).advance buffers.length

theorem filled_ringEntries (id : Nat) (buffers : List Span) : (filled id buffers).ringEntries = buffers.length := by
  rw [filled, fill_eq]; rfl

theorem filled_bufs (id : Nat) (buffers : List Span) {k : Nat} (hk : buffers.length = 2 ^ k) (j : Nat)
    (hj : j < buffers.length) : (filled id buffers).bufs j = ⟨buffers[j].data, buffers[j].size, UInt16.ofNat j⟩ :=
  fill_slots { id, ringEntries := buffers.length } buffers rfl hk j _ (List.getElem?_eq_getElem hj)

/-- A fresh ring filled with `2^k` buffers offers all of them, in order. -/
theorem filled_slots (id : Nat) (buffers : List Span) {k : Nat} (hk : buffers.length = 2 ^ k) (hk15 : k ≤ 15) :
    (filled id buffers).slots = buffers.zipIdx.map fun (b, j) => ⟨b.data, b.size, UInt16.ofNat j⟩ := by
  have hpow : (2 : Nat) ^ k ≤ 2 ^ 15 := Nat.pow_le_pow_right (by omega) hk15
  have hw : (filled id buffers).waiting = buffers.length := by
    rw [filled, waiting_advance] <;> rw [fill_eq] <;> simp only [waiting, UInt16.sub_self, UInt16.toNat_zero]
    · omega
    · omega
  have hh : (filled id buffers).head = 0 := by
    rw [filled, fill_eq]; rfl
  rw [slots, hw, filled_ringEntries, hh]
  apply List.ext_getElem (by simp)
  intro j h1 h2
  have hj : j < buffers.length := by simpa using h1
  simp only [window, List.getElem_map, List.getElem_range, List.getElem_zipIdx, UInt16.toNat_zero, Nat.zero_add,
    Nat.mod_eq_of_lt hj]
  exact filled_bufs id buffers hk j hj

end BufRing

/-! ## A set-up buffer ring -/

namespace BufferRing

/-- A ring is registered, of the size of the span, and every slot holds the id
of one of the buffers. -/
structure Ready (b : BufferRing) : Prop where
  size : ∃ k, k ≤ 15 ∧ b.buffers.length = 2 ^ k
  ring : ∃ r, b.bufferRing = some r ∧ r.ringEntries = b.buffers.length ∧
    ∀ j, j < b.buffers.length → (r.bufs j).bid.toNat < b.buffers.length

theorem isPowerOfTwo_pow {k : Nat} (hk : k ≤ 15) : isPowerOfTwo (UInt64.ofNat (2 ^ k)) = true := by
  revert k
  decide

theorem setupBuffers_eq (buffers : List Span) {k : Nat} (hk : buffers.length = 2 ^ k) (hk15 : k ≤ 15) :
    setupBuffers {} buffers 0 = (⟨true, .text "Buffers added"⟩,
      { bufferRing := some (BufRing.filled 0 buffers), buffers, calls := [.setup (some 0) buffers.length] }) := by
  have hp := isPowerOfTwo_pow hk15
  rw [← hk] at hp
  simp [setupBuffers, hp, BufRing.filled]

theorem setupBuffers_failed (buffers : List Span) {k : Nat} (hk : buffers.length = 2 ^ k) (hk15 : k ≤ 15) {status : Int}
    (hst : status ≠ 0) : setupBuffers {} buffers status = (⟨false, .strerror (-status)⟩,
      { bufferRing := none, buffers, calls := [.setup none buffers.length] }) := by
  have hp := isPowerOfTwo_pow hk15
  rw [← hk] at hp
  simp [setupBuffers, hp, hst]

theorem ofNat_toNat {j n : Nat} (hj : j < n) (hn : n ≤ 2 ^ 15) : (UInt16.ofNat j).toNat = j := by
  rw [UInt16.toNat_ofNat', Nat.mod_eq_of_lt (by omega)]

/-- What a successful `setupBuffers` leaves. -/
theorem setupBuffers_ready (buffers : List Span) {k : Nat} (hk : buffers.length = 2 ^ k) (hk15 : k ≤ 15) :
    (setupBuffers {} buffers 0).2.Ready ∧
      (setupBuffers {} buffers 0).2.available = List.range buffers.length := by
  have hpow : buffers.length ≤ 2 ^ 15 := hk ▸ Nat.pow_le_pow_right (by omega) hk15
  rw [setupBuffers_eq buffers hk hk15]
  refine ⟨⟨⟨k, hk15, hk⟩, _, rfl, BufRing.filled_ringEntries 0 buffers, fun j hj => ?_⟩, ?_⟩
  · rw [BufRing.filled_bufs 0 buffers hk j hj, ofNat_toNat hj hpow]
    exact hj
  · simp only [available, BufRing.available, BufRing.filled_slots 0 buffers hk hk15, List.map_map]
    apply List.ext_getElem (by simp)
    intro j h1 h2
    simp [ofNat_toNat (show j < buffers.length by simpa using h2) hpow]

/-- The kernel takes the first available buffer. -/
theorem select_ready {b b' : BufferRing} {bid : UInt16} (hb : b.Ready) (h : b.select = some (bid, b')) :
    b'.Ready ∧ b'.buffers = b.buffers ∧ b.available = bid.toNat :: b'.available ∧
      bid.toNat < b.buffers.length := by
  obtain ⟨⟨k, hk15, hk⟩, r, hr, hn, hbid⟩ := hb
  simp only [select, hr, Option.map_eq_some_iff, Prod.mk.injEq, Prod.exists] at h
  obtain ⟨bid', r', hsel, rfl, rfl⟩ := h
  obtain ⟨hn', hbufs, b₀, rfl, hslots⟩ := BufRing.slots_select (hn.trans hk) (by omega) hsel
  refine ⟨⟨⟨k, hk15, hk⟩, r', rfl, hn'.trans hn, hbufs ▸ hbid⟩, rfl, ?_, ?_⟩
  · simp [available, hr, BufRing.available, hslots]
  · have hmem : b₀ ∈ r.slots := hslots ▸ List.mem_cons_self
    obtain ⟨i, -, rfl⟩ := (mem_window _ _ _ _).1 hmem
    exact hbid _ (hn ▸ Nat.mod_lt _ (by rw [hn, hk]; exact Nat.two_pow_pos k))

theorem flags_or_ne (f : UInt32) : f ||| IORING_CQE_F_BUFFER ≠ 0 := by
  intro h
  have := congrArg (fun x : UInt32 => x.toNat.testBit 0) h
  simp [IORING_CQE_F_BUFFER] at this

/-- `get` never looks at `IORING_CQE_F_BUFFER`. -/
theorem get_eq (b : BufferRing) (cqe : Cqe) : b.get cqe = b.buffers[cqe.bufferId]? :=
  if_neg (flags_or_ne cqe.flags)

/-- Nor does `release`: it gives back the buffer the upper half of the flags
names, whether the completion used one or not. -/
theorem release_eq_ok {b b' : BufferRing} {cqe : Cqe} : b.release cqe = .ok b' ↔
    ∃ buffer r, b.buffers[cqe.bufferId]? = some buffer ∧ b.bufferRing = some r ∧
      b' = { b with bufferRing := some ((r.add buffer.data buffer.size (UInt16.ofNat cqe.bufferId)
        (BufRing.mask b.buffers.length) 0).advance 1) } := by
  rw [release, if_neg (flags_or_ne cqe.flags)]
  constructor
  · intro h
    split at h
    · rename_i buffer r hbuf hr
      cases h
      exact ⟨buffer, r, hbuf, hr, rfl⟩
    · cases h
  · rintro ⟨buffer, r, hbuf, hr, rfl⟩
    rw [hbuf, hr]

theorem release_ready {b b' : BufferRing} {cqe : Cqe} (hb : b.Ready) (h : b.release cqe = .ok b') :
    b'.Ready ∧ b'.buffers = b.buffers ∧ cqe.bufferId < b.buffers.length ∧
      (b.available.length < b.buffers.length → b'.available = b.available ++ [cqe.bufferId]) := by
  obtain ⟨⟨k, hk15, hk⟩, r, hr, hn, hbid⟩ := hb
  have hpow : b.buffers.length ≤ 2 ^ 15 := hk ▸ Nat.pow_le_pow_right (by omega) hk15
  obtain ⟨buffer, r', hbuf, hr', rfl⟩ := release_eq_ok.1 h
  obtain rfl : r = r' := Option.some.inj (hr.symm.trans hr')
  obtain ⟨hlt, -⟩ := List.getElem?_eq_some_iff.1 hbuf
  refine ⟨⟨⟨k, hk15, hk⟩, _, rfl, hn, fun j hj => ?_⟩, rfl, hlt, fun hav => ?_⟩
  · simp only [BufRing.advance, BufRing.add]
    by_cases hj' : j = (r.tail.toNat + 0) &&& BufRing.mask b.buffers.length
    · subst hj'
      rw [Function.update_self, ofNat_toNat hlt hpow]
      exact hlt
    · rw [Function.update_of_ne hj']
      exact hbid j hj
  · simp only [available, hr, BufRing.available, List.length_map, BufRing.slots, window_length] at hav
    simp only [available, hr, BufRing.available, ← hn]
    rw [BufRing.slots_push r (hn.trans hk) hk15 (by omega)]
    simp [ofNat_toNat hlt hpow]

theorem release_error {b : BufferRing} {cqe : Cqe} {f : Fault} (h : b.release cqe = .error f) : f = .bufferIndex := by
  unfold release at h
  split at h
  · cases h
  · split at h <;> cases h
    rfl

/-- It cannot fail on a completion `get` found a buffer for. -/
theorem release_ok {b : BufferRing} {cqe : Cqe} (hb : b.Ready) (h : cqe.bufferId < b.buffers.length) :
    ∃ b', b.release cqe = .ok b' := by
  obtain ⟨r, hr, -⟩ := hb.ring
  exact ⟨_, release_eq_ok.2 ⟨_, r, List.getElem?_eq_getElem h, hr, rfl⟩⟩

end BufferRing

end RingNet
