import RingNet.BufferRing
/-!
# Registering buffer rings

`setupBuffers` frees the ring it replaces before it asks for a new one, and
the destructor frees the last. Both pass the size of the span they find in
`buffers`, which `setupBuffers` overwrites between the two calls. What the
calls of `io_uring_setup_buf_ring` and `io_uring_free_buf_ring` look like over
the life of a `BufferRing` is `rings_freed_once`; which sizes get as far as
these calls is `registers_powers_iff`.
-/

namespace RingNet

/-- The ring a call made or freed. -/
def BufRingCall.ring : BufRingCall → Option Nat
  | .setup ring _ => ring
  | .free ring _ => some ring

namespace BufferRing

/-- The calls there are after the destructor. -/
def destroy (b : BufferRing) : List BufRingCall :=
  match b.bufferRing with
  | some r => b.calls ++ [.free r.id b.buffers.length]
  | none => b.calls

/-- A sequence of `setupBuffers`, each with what the kernel reports. -/
def setups (b : BufferRing) : List (List Span × Int) → BufferRing
  | [] => b
  | (buffers, status) :: rest => setups (b.setupBuffers buffers status).2 rest

/-! ## What a call does -/

/-- Rejected, and nothing changes; or the old ring is freed and the kernel is
asked for a new one, which it refuses or makes. -/
theorem setupBuffers_cases (b : BufferRing) (buffers : List Span) (status : Int) :
    (isPowerOfTwo (UInt64.ofNat buffers.length) = false ∧
      b.setupBuffers buffers status = (⟨false, .text "The number of entries must be a power of two"⟩, b)) ∨
    isPowerOfTwo (UInt64.ofNat buffers.length) = true ∧
      ((status ≠ 0 ∧ b.setupBuffers buffers status = (⟨false, .strerror (-status)⟩,
        { bufferRing := none, buffers, calls := b.destroy ++ [.setup none buffers.length] })) ∨
      (status = 0 ∧ b.setupBuffers buffers status = (⟨true, .text "Buffers added"⟩,
        { bufferRing := some (BufRing.filled b.calls.length buffers), buffers
          calls := b.destroy ++ [.setup (some b.calls.length) buffers.length] }))) := by
  unfold setupBuffers destroy
  cases hp : isPowerOfTwo (UInt64.ofNat buffers.length) with
  | false => exact .inl ⟨rfl, rfl⟩
  | true =>
    refine .inr ⟨rfl, ?_⟩
    -- the ring freed before it is replaced is the one the destructor would free
    by_cases hs : status = 0
    · right
      cases b.bufferRing <;> simp [hs, BufRing.filled]
    · left
      cases b.bufferRing <;> simp [hs]

theorem filled_id (id : Nat) (buffers : List Span) : (BufRing.filled id buffers).id = id := by
  rw [BufRing.filled, BufRing.fill_eq]
  rfl

/-! ## Every ring is freed once -/

/-- What the kernel relies on, for the calls in order: a ring is freed once,
with the number of entries it was set up with, and before the next call that
sets one up. -/
structure Paired (t : List BufRingCall) : Prop where
  free : ∀ (i r n : Nat), t[i]? = some (.free r n) →
    (∃ j < i, t[j]? = some (.setup (some r) n)) ∧ ∀ k < i, ∀ m, t[k]? ≠ some (.free r m)
  setup : ∀ (i r n : Nat), t[i]? = some (.setup (some r) n) →
    ∃ j > i, t[j]? = some (.free r n) ∧ (∀ k m : Nat, t[k]? = some (.free r m) → k = j) ∧
      ∀ (k : Nat) r' m, i < k → k < j → t[k]? ≠ some (.setup r' m)

/-- Where a call of the longer history is. -/
theorem call_append {t s : List BufRingCall} {i : Nat} {c : BufRingCall} :
    (t ++ s)[i]? = some c ↔ t[i]? = some c ∨ ∃ j, i = t.length + j ∧ s[j]? = some c := by
  constructor
  · intro h
    by_cases hi : i < t.length
    · rw [List.getElem?_append_left hi] at h
      exact .inl h
    · rw [List.getElem?_append_right (Nat.le_of_not_lt hi)] at h
      exact .inr ⟨i - t.length, by omega, h⟩
  · rintro (h | ⟨j, rfl, h⟩)
    · rw [List.getElem?_append_left (List.getElem?_eq_some_iff.1 h).1]
      exact h
    · rw [List.getElem?_append_right (by omega), Nat.add_sub_cancel_left]
      exact h

/-- Histories of different rings, one after the other. -/
theorem Paired.append {t s : List BufRingCall} (h : Paired t) (hs : Paired s)
    (hnew : ∀ c ∈ s, ∀ r, c.ring = some r → ∀ d ∈ t, d.ring ≠ some r) : Paired (t ++ s) := by
  -- a ring of the one part is not in the other
  have hother : ∀ {i j : Nat} {c d : BufRingCall} {r : Nat}, t[i]? = some c → c.ring = some r →
      s[j]? = some d → d.ring ≠ some r := by
    intro i j c d r hi hc hj hd
    exact hnew d (List.mem_of_getElem? hj) r hd c (List.mem_of_getElem? hi) hc
  constructor
  · intro i r n hi
    rcases call_append.1 hi with hi | ⟨i', rfl, hi'⟩
    · obtain ⟨⟨j, hj, hset⟩, hfirst⟩ := h.free i r n hi
      have hlt := (List.getElem?_eq_some_iff.1 hi).1
      refine ⟨⟨j, hj, call_append.2 (.inl hset)⟩, fun k hk m hkf => ?_⟩
      rcases call_append.1 hkf with hkf | ⟨k, rfl, -⟩
      · exact hfirst k hk m hkf
      · omega
    · obtain ⟨⟨j, hj, hset⟩, hfirst⟩ := hs.free i' r n hi'
      refine ⟨⟨t.length + j, by omega, call_append.2 (.inr ⟨j, rfl, hset⟩)⟩, fun k hk m hkf => ?_⟩
      rcases call_append.1 hkf with hkf | ⟨k', rfl, hkf'⟩
      · exact hother hkf rfl hi' rfl
      · exact hfirst k' (by omega) m hkf'
  · intro i r n hi
    rcases call_append.1 hi with hi | ⟨i', rfl, hi'⟩
    · obtain ⟨j, hj, hfree, honly, hbetween⟩ := h.setup i r n hi
      have hlt := (List.getElem?_eq_some_iff.1 hfree).1
      refine ⟨j, hj, call_append.2 (.inl hfree), fun k m hkf => ?_, fun k r' m hik hkj hks => ?_⟩
      · rcases call_append.1 hkf with hkf | ⟨k', rfl, hkf'⟩
        · exact honly k m hkf
        · exact absurd rfl (hother hi rfl hkf')
      · rcases call_append.1 hks with hks | ⟨k, rfl, -⟩
        · exact hbetween k r' m hik hkj hks
        · omega
    · obtain ⟨j, hj, hfree, honly, hbetween⟩ := hs.setup i' r n hi'
      refine ⟨t.length + j, by omega, call_append.2 (.inr ⟨j, rfl, hfree⟩), fun k m hkf => ?_, fun k r' m hik hkj hks => ?_⟩
      · rcases call_append.1 hkf with hkf | ⟨k', rfl, hkf'⟩
        · exact absurd rfl (hother hkf rfl hi')
        · rw [honly k' m hkf']
      · rcases call_append.1 hks with hks | ⟨k', rfl, hks'⟩
        · have := (List.getElem?_eq_some_iff.1 hks).1
          omega
        · exact hbetween k' r' m (by omega) (by omega) hks'

theorem paired_failed (n : Nat) : Paired [.setup none n] := by
  constructor <;> intro i r m hi <;> simp [List.getElem?_singleton] at hi

theorem paired_freed (r n : Nat) : Paired [.setup (some r) n, .free r n] := by
  constructor
  · intro i r' m hi
    match i with
    | 0 => cases hi
    | 1 =>
      cases hi
      refine ⟨⟨0, by omega, rfl⟩, fun k hk m hkf => ?_⟩
      obtain rfl : k = 0 := by omega
      cases hkf
  · intro i r' m hi
    match i with
    | 0 =>
      cases hi
      refine ⟨1, by omega, rfl, fun k m hkf => ?_, by omega⟩
      match k with
      | 0 => cases hkf
      | 1 => rfl
    | 1 => cases hi

/-- If the ring were destroyed now, every ring would have been freed once; and
the next ring can be told from those before it. -/
structure Settled (b : BufferRing) : Prop where
  paired : Paired b.destroy
  known : ∀ c ∈ b.destroy, ∀ r, c.ring = some r → r < b.calls.length

theorem destroy_length (b : BufferRing) : b.calls.length ≤ b.destroy.length := by
  unfold destroy
  split
  · rw [List.length_append]
    exact Nat.le_add_right _ _
  · exact Nat.le_refl _

theorem settled_setup {b : BufferRing} (h : b.Settled) (buffers : List Span) (status : Int) :
    (b.setupBuffers buffers status).2.Settled := by
  have hlen := b.destroy_length
  rcases b.setupBuffers_cases buffers status with ⟨-, he⟩ | ⟨-, ⟨-, he⟩ | ⟨-, he⟩⟩
  · rw [he]
    exact h
  · rw [he]
    refine ⟨h.paired.append (paired_failed _) (by simp [BufRingCall.ring]), fun c hc r hr => ?_⟩
    have hc : c ∈ b.destroy ++ [.setup none buffers.length] := hc
    rw [List.mem_append, List.mem_singleton] at hc
    rcases hc with hc | rfl
    · have := h.known c hc r hr
      simp only [List.length_append]
      omega
    · cases hr
  · have hdestroy : (b.setupBuffers buffers status).2.destroy = b.destroy ++
        [.setup (some b.calls.length) buffers.length, .free b.calls.length buffers.length] := by
      rw [he]
      simp [destroy, filled_id]
    have hcalls : b.calls.length < (b.setupBuffers buffers status).2.calls.length := by
      rw [he, List.length_append, List.length_singleton]
      omega
    -- the new ring's number is that of no call so far
    have hnew : ∀ c ∈ b.destroy, c.ring ≠ some b.calls.length :=
      fun c hc hr => Nat.lt_irrefl _ (h.known c hc _ hr)
    have hring : ∀ c ∈ [BufRingCall.setup (some b.calls.length) buffers.length, .free b.calls.length buffers.length],
        ∀ r, c.ring = some r → b.calls.length = r := by
      simp [BufRingCall.ring]
    constructor
    · rw [hdestroy]
      refine h.paired.append (paired_freed _ _) fun c hc r hr d hd => ?_
      exact hring c hc r hr ▸ hnew d hd
    · rw [hdestroy]
      intro c hc r hr
      rcases List.mem_append.1 hc with hc | hc
      · exact Nat.lt_trans (h.known c hc r hr) hcalls
      · exact hring c hc r hr ▸ hcalls

theorem settled_setups {b : BufferRing} (h : b.Settled) (calls : List (List Span × Int)) : (b.setups calls).Settled := by
  induction calls generalizing b with
  | nil => exact h
  | cons c calls ih => exact ih (settled_setup h c.1 c.2)

/-- Whatever spans a `BufferRing` is given and however the kernel answers: when
it has been destroyed, each ring was freed once, with its own number of
entries, before the next was set up. -/
theorem rings_freed_once (calls : List (List Span × Int)) : Paired (setups {} calls).destroy :=
  (settled_setups ⟨⟨by simp [destroy], by simp [destroy]⟩, by simp [destroy]⟩ calls).paired

/-! ## Which sizes are registered -/

theorem isPowerOfTwo_iff (n : UInt64) : isPowerOfTwo n = true ↔ n.toNat = 0 ∨ ∃ k, n.toNat = 2 ^ k := by
  rw [isPowerOfTwo, beq_iff_eq, ← UInt64.toNat_inj, UInt64.toNat_and, UInt64.toNat_zero]
  by_cases h0 : n.toNat = 0
  · simp [h0]
  · -- no wrap-around, so the test is the one on natural numbers
    have hsub : (n - 1).toNat = n.toNat - 1 := by
      have hlt := n.toNat_lt
      rw [UInt64.toNat_sub]
      simp
      omega
    rw [hsub, Nat.and_sub_one_eq_zero_iff_isPowerOfTwo h0, Nat.isPowerOfTwo]
    exact ⟨.inr, fun h => h.resolve_left h0⟩

/-- Whether `setupBuffers` gets as far as asking the kernel for a ring. -/
def registers (b : BufferRing) (buffers : List Span) (status : Int) : Bool :=
  ((b.setupBuffers buffers status).2.calls.drop b.calls.length).any fun c =>
    match c with
    | .setup .. => true
    | .free .. => false

/-- A ring is asked for exactly for a power of two; for any other size the call
fails and the registered ring, and its span, stay. -/
structure OnlyPowers (b : BufferRing) (buffers : List Span) (status : Int) : Prop where
  asks : b.registers buffers status = true ↔ ∃ k, buffers.length = 2 ^ k
  rejects : (¬ ∃ k, buffers.length = 2 ^ k) →
    (b.setupBuffers buffers status).1.success = false ∧ (b.setupBuffers buffers status).2 = b

theorem registers_eq (b : BufferRing) (buffers : List Span) (status : Int) :
    b.registers buffers status = isPowerOfTwo (UInt64.ofNat buffers.length) := by
  have hlen := b.destroy_length
  unfold registers
  rcases b.setupBuffers_cases buffers status with ⟨hp, he⟩ | ⟨hp, ⟨-, he⟩ | ⟨-, he⟩⟩
  · rw [hp, he]
    simp
  · rw [hp, he, List.drop_append_of_le_length hlen]
    simp
  · rw [hp, he, List.drop_append_of_le_length hlen]
    simp

/-- Of all sizes a span can have, zero alone is treated wrongly. -/
theorem registers_powers_iff (b : BufferRing) (buffers : List Span) (status : Int) (h : buffers.length < 2 ^ 64) :
    OnlyPowers b buffers status ↔ buffers.length ≠ 0 := by
  have hn : (UInt64.ofNat buffers.length).toNat = buffers.length := by
    rw [UInt64.toNat_ofNat', Nat.mod_eq_of_lt h]
  have hreg : b.registers buffers status = true ↔ buffers.length = 0 ∨ ∃ k, buffers.length = 2 ^ k := by
    rw [registers_eq, isPowerOfTwo_iff, hn]
  constructor
  · rintro ⟨hasks, -⟩ h0
    obtain ⟨k, hk⟩ := hasks.1 (hreg.2 (.inl h0))
    exact absurd (hk.symm.trans h0) (Nat.pow_pos (by omega)).ne'
  · intro h0
    refine ⟨hreg.trans (or_iff_right h0), fun hno => ?_⟩
    have hp : isPowerOfTwo (UInt64.ofNat buffers.length) = false := by
      rw [← Bool.not_eq_true, isPowerOfTwo_iff, hn]
      exact not_or.2 ⟨h0, hno⟩
    rcases b.setupBuffers_cases buffers status with ⟨-, he⟩ | ⟨hp', -⟩
    · rw [he]
      exact ⟨rfl, rfl⟩
    · rw [hp] at hp'
      cases hp'

/-- Three buffers are rejected, two are registered. -/
theorem registers_powers_iff_three :
    OnlyPowers {} [⟨0, 1024⟩, ⟨1024, 1024⟩, ⟨2048, 1024⟩] 0 ∧ OnlyPowers {} [⟨0, 1024⟩, ⟨1024, 1024⟩] 0 :=
  ⟨(registers_powers_iff _ _ _ (by decide)).2 (by decide), (registers_powers_iff _ _ _ (by decide)).2 (by decide)⟩

/-- An empty span passes the test: the ring of two buffers is given up for a
ring of none, which the kernel refuses. -/
theorem empty_span_registered :
    ((setups {} [([⟨0, 1024⟩, ⟨1024, 1024⟩], 0)]).setupBuffers [] (-22)).2.calls =
        [.setup (some 0) 2, .free 0 2, .setup none 0] ∧
      ((setups {} [([⟨0, 1024⟩, ⟨1024, 1024⟩], 0)]).setupBuffers [] (-22)).2.bufferRing.isNone = true ∧
      ¬ OnlyPowers (setups {} [([⟨0, 1024⟩, ⟨1024, 1024⟩], 0)]) [] (-22) := by
  refine ⟨by decide, by decide, fun h => ?_⟩
  obtain ⟨k, hk⟩ := h.asks.1 (by decide)
  exact absurd hk (Nat.pow_pos (by omega)).ne

end BufferRing

end RingNet
