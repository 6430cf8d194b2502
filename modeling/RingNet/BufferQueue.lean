import RingNet.Lib.Fifo
import RingNet.BufferRing
/-!
# The buffer ring is a queue

`BufferRing` on its own: after `setupBuffers`, the kernel selects buffers and
the program releases completions that carry a selected id, in any order and
any number of times. The ids in the slots from head to tail and the ids that
are selected are a `Fifo`: selecting takes its first id and releasing gives
one back, whatever the 16-bit counters have wrapped to.
-/

namespace RingNet

open Lib

/-- The slots from head to tail. -/
def BufferRing.slots (b : BufferRing) : List Buf :=
  match b.bufferRing with
  | none => []
  | some r => r.slots

theorem BufferRing.available_eq (b : BufferRing) : b.available = b.slots.map (·.bid.toNat) := by
  unfold available slots
  cases b.bufferRing <;> rfl

/-- A buffer ring, and the ids the kernel has selected that have not been released. -/
structure Provided where
  bufferRing : BufferRing
  selected : List Nat := []

namespace Provided

inductive Action
  | select
  | release (cqe : Cqe)
  deriving DecidableEq, Repr

def step (s : Provided) : Action → Except Stop Provided
  | .select =>
    match s.bufferRing.select with
    | none => .error .disabled
    | some (bid, bufferRing) => .ok ⟨bufferRing, s.selected ++ [bid.toNat]⟩
  | .release cqe =>
    if cqe.bufferId ∈ s.selected then
      match s.bufferRing.release cqe with
      | .error f => .error (.fault f)
      | .ok bufferRing => .ok ⟨bufferRing, s.selected.erase cqe.bufferId⟩
    else .error .disabled

/-- The queue the ring stands for. -/
def queue (s : Provided) : Fifo Nat := ⟨s.bufferRing.available, s.selected⟩

/-- What the actions do to it. -/
def Action.onQueue : Action → Fifo.Action Nat
  | .select => .take
  | .release cqe => .giveBack cqe.bufferId

/-- The ring is set up on `buffers`, the ids in its slots and the selected ones
are those of the buffers, and each slot describes the buffer it names. -/
structure Lends (buffers : List Span) (s : Provided) : Prop where
  ready : s.bufferRing.Ready
  span : s.bufferRing.buffers = buffers
  ids : (s.bufferRing.available ++ s.selected).Perm (List.range buffers.length)
  contents : ∀ x ∈ s.bufferRing.slots, buffers[x.bid.toNat]? = some ⟨x.addr, x.len⟩

theorem Lends.selected_lt {buffers : List Span} {s : Provided} (h : Lends buffers s) {id : Nat}
    (hid : id ∈ s.selected) : id < s.bufferRing.buffers.length := by
  rw [h.span]
  exact List.mem_range.1 (h.ids.mem_iff.1 (List.mem_append_right _ hid))

/-- A selected id leaves a free slot. -/
theorem Lends.not_full {buffers : List Span} {s : Provided} (h : Lends buffers s) {id : Nat}
    (hid : id ∈ s.selected) : s.bufferRing.available.length < s.bufferRing.buffers.length := by
  have hlen := h.ids.length_eq
  have hpos := List.length_pos_of_mem hid
  rw [List.length_append, List.length_range] at hlen
  rw [h.span]
  omega

/-! ## Selecting -/

theorem select_slots {b b' : BufferRing} {bid : UInt16} (hb : b.Ready) (h : b.select = some (bid, b')) :
    ∃ x : Buf, x.bid = bid ∧ b.slots = x :: b'.slots := by
  obtain ⟨⟨k, hk15, hk⟩, r, hr, hn, -⟩ := hb
  simp only [BufferRing.select, hr, Option.map_eq_some_iff, Prod.mk.injEq, Prod.exists] at h
  obtain ⟨bid', r', hsel, rfl, rfl⟩ := h
  obtain ⟨-, -, x, hx, hslots⟩ := BufRing.slots_select (hn.trans hk) (by omega) hsel
  refine ⟨x, hx, ?_⟩
  simp only [BufferRing.slots, hr, hslots]

theorem lends_select {buffers : List Span} {s : Provided} (h : Lends buffers s) {bid : UInt16} {b' : BufferRing}
    (hs : s.bufferRing.select = some (bid, b')) : Lends buffers ⟨b', s.selected ++ [bid.toNat]⟩ := by
  obtain ⟨hready, hbufs, hav, -⟩ := BufferRing.select_ready h.ready hs
  obtain ⟨x, -, hslots⟩ := select_slots h.ready hs
  have hqueue : s.queue.step .take = .ok ⟨b'.available, s.selected ++ [bid.toNat]⟩ := by
    simp only [queue, Fifo.step, hav]
  refine ⟨hready, hbufs.trans h.span, (Fifo.perm_step hqueue).trans h.ids, fun y hy => ?_⟩
  exact h.contents y (hslots ▸ List.mem_cons_of_mem _ hy)

/-! ## Releasing -/

/-- What `release` does to a ring that is not full: one slot more, at the tail. -/
theorem release_slots {b b' : BufferRing} {cqe : Cqe} (hb : b.Ready) (hlt : b.available.length < b.buffers.length)
    (h : b.release cqe = .ok b') : ∃ buffer, b.buffers[cqe.bufferId]? = some buffer ∧
      b'.slots = b.slots ++ [⟨buffer.data, buffer.size, UInt16.ofNat cqe.bufferId⟩] := by
  obtain ⟨⟨k, hk15, hk⟩, r, hr, hn, -⟩ := hb
  obtain ⟨buffer, r', hbuf, hr', rfl⟩ := BufferRing.release_eq_ok.1 h
  obtain rfl : r = r' := Option.some.inj (hr.symm.trans hr')
  simp only [BufferRing.available, hr, BufRing.available, List.length_map, BufRing.slots, window_length] at hlt
  refine ⟨buffer, hbuf, ?_⟩
  simp only [BufferRing.slots, hr, ← hn]
  exact BufRing.slots_push r (hn.trans hk) hk15 (by omega) _ _ _

theorem lends_release {buffers : List Span} {s : Provided} (h : Lends buffers s) {cqe : Cqe} {b' : BufferRing}
    (hid : cqe.bufferId ∈ s.selected) (hs : s.bufferRing.release cqe = .ok b') :
    Lends buffers ⟨b', s.selected.erase cqe.bufferId⟩ := by
  have hfull := h.not_full hid
  have hlt := h.selected_lt hid
  obtain ⟨k, hk15, hk⟩ := h.ready.size
  have hpow : s.bufferRing.buffers.length ≤ 2 ^ 15 := hk ▸ Nat.pow_le_pow_right (by omega) hk15
  obtain ⟨hready, hbufs, -, hav⟩ := BufferRing.release_ready h.ready hs
  obtain ⟨buffer, hbuf, hslots⟩ := release_slots h.ready hfull hs
  have hlent : cqe.bufferId ∈ s.queue.lent := hid
  have hqueue : s.queue.step (.giveBack cqe.bufferId) = .ok ⟨b'.available, s.selected.erase cqe.bufferId⟩ := by
    rw [Fifo.step, if_pos hlent, hav hfull]
    rfl
  refine ⟨hready, hbufs.trans h.span, (Fifo.perm_step hqueue).trans h.ids, fun y hy => ?_⟩
  rw [hslots, List.mem_append, List.mem_singleton] at hy
  rcases hy with hy | rfl
  · exact h.contents y hy
  · rw [← h.span]
    simp only [BufferRing.ofNat_toNat hlt hpow, hbuf]

/-! ## Whole runs -/

theorem lends_step {buffers : List Span} {s s' : Provided} {a : Action} (h : Lends buffers s)
    (hs : s.step a = .ok s') : Lends buffers s' := by
  cases a with
  | select =>
    simp only [step] at hs
    split at hs
    · cases hs
    · rename_i hsel
      cases hs
      exact lends_select h hsel
  | release cqe =>
    simp only [step] at hs
    split at hs
    · rename_i hid
      split at hs
      · cases hs
      · rename_i hrel
        cases hs
        exact lends_release h hid hrel
    · cases hs

/-- `setupBuffers` registers a new ring, whatever was there before. -/
theorem setupBuffers_success {b₀ : BufferRing} {buffers : List Span} {status : Int}
    (h : (b₀.setupBuffers buffers status).1.success = true) :
    (b₀.setupBuffers buffers status).2.bufferRing = some (BufRing.filled b₀.calls.length buffers) ∧
      (b₀.setupBuffers buffers status).2.buffers = buffers := by
  unfold BufferRing.setupBuffers at h ⊢
  split at h
  · cases h
  · rename_i hp
    rw [if_neg hp]
    dsimp only at h ⊢
    split at h
    · cases h
    · rename_i hst
      rw [if_neg hst]
      exact ⟨rfl, rfl⟩

theorem lends_setup {b₀ : BufferRing} {buffers : List Span} {status : Int} {k : Nat} (hk : buffers.length = 2 ^ k)
    (hk15 : k ≤ 15) (h : (b₀.setupBuffers buffers status).1.success = true) :
    Lends buffers ⟨(b₀.setupBuffers buffers status).2, []⟩ ∧
      (b₀.setupBuffers buffers status).2.available = List.range buffers.length := by
  have hpow : buffers.length ≤ 2 ^ 15 := hk ▸ Nat.pow_le_pow_right (by omega) hk15
  obtain ⟨hring, hbufs⟩ := setupBuffers_success h
  have hslots := BufRing.filled_slots b₀.calls.length buffers hk hk15
  have hav : (b₀.setupBuffers buffers status).2.available = List.range buffers.length := by
    simp only [BufferRing.available, hring, BufRing.available, hslots, List.map_map]
    apply List.ext_getElem (by simp)
    intro j h1 h2
    simp [BufferRing.ofNat_toNat (show j < buffers.length by simpa using h2) hpow]
  refine ⟨⟨⟨⟨k, hk15, by rw [hbufs]; exact hk⟩, _, hring, ?_, ?_⟩, hbufs, ?_, ?_⟩, hav⟩
  · rw [hbufs]
    exact BufRing.filled_ringEntries _ _
  · intro j hj
    rw [hbufs] at hj ⊢
    rw [BufRing.filled_bufs _ buffers hk j hj, BufferRing.ofNat_toNat hj hpow]
    exact hj
  · rw [hav, List.append_nil]
  · intro x hx
    simp only [BufferRing.slots, hring, hslots, List.mem_map, Prod.exists] at hx
    obtain ⟨b, j, hmem, rfl⟩ := hx
    have hb := List.mem_zipIdx_iff_getElem?.1 hmem
    obtain ⟨hj, -⟩ := List.getElem?_eq_some_iff.1 hb
    simp only [BufferRing.ofNat_toNat hj hpow]
    exact hb

/-- An action is possible exactly when it is possible on the queue, and does the same there. -/
theorem step_queue {buffers : List Span} {s : Provided} (h : Lends buffers s) (a : Action) :
    (s.step a).toOption.map queue = (s.queue.step a.onQueue).toOption := by
  cases a with
  | select =>
    simp only [step, Action.onQueue, Fifo.step, queue]
    cases hs : s.bufferRing.select with
    | none =>
      have hav : s.bufferRing.available = [] := by
        obtain ⟨r, hr, -, -⟩ := h.ready.ring
        simp only [BufferRing.select, hr, Option.map_eq_none_iff, BufRing.select, ite_eq_left_iff, reduceCtorEq,
          imp_false, not_not] at hs
        simp [BufferRing.available, hr, BufRing.available, BufRing.slots, BufRing.waiting, hs]
      simp only [hav]
      rfl
    | some x =>
      obtain ⟨bid, b'⟩ := x
      obtain ⟨-, -, hav, -⟩ := BufferRing.select_ready h.ready hs
      simp only [hav]
      rfl
  | release cqe =>
    simp only [step, Action.onQueue, Fifo.step]
    by_cases hid : cqe.bufferId ∈ s.selected
    · have hlent : cqe.bufferId ∈ s.queue.lent := hid
      obtain ⟨b', hb'⟩ := BufferRing.release_ok h.ready (h.selected_lt hid)
      obtain ⟨-, -, -, hav⟩ := BufferRing.release_ready h.ready hb'
      rw [if_pos hid, if_pos hlent, hb']
      simp only [queue, ← hav (h.not_full hid)]
      rfl
    · have hlent : cqe.bufferId ∉ s.queue.lent := hid
      rw [if_neg hid, if_neg hlent]
      rfl

/-- No action is undefined behaviour. -/
theorem lends_no_fault {buffers : List Span} {s : Provided} (h : Lends buffers s) (a : Action) (f : Fault) :
    s.step a ≠ .error (.fault f) := by
  intro hf
  cases a with
  | select =>
    simp only [step] at hf
    split at hf <;> cases hf
  | release cqe =>
    simp only [step] at hf
    split at hf
    · rename_i hid
      obtain ⟨b', hb'⟩ := BufferRing.release_ok h.ready (h.selected_lt hid)
      rw [hb'] at hf
      cases hf
    · cases hf

/-- The one slot an action may write is the one past the tail, of a ring that is not full. -/
theorem lends_bufs {buffers : List Span} {s s' : Provided} {a : Action} (h : Lends buffers s)
    (hs : s.step a = .ok s') {r r' : BufRing} (hr : s.bufferRing.bufferRing = some r)
    (hr' : s'.bufferRing.bufferRing = some r') :
    r'.bufs = r.bufs ∨ (r.waiting < buffers.length ∧
      ∃ x, r'.bufs = Function.update r.bufs ((r.head.toNat + r.waiting) % buffers.length) x) := by
  obtain ⟨⟨k, hk15, hk⟩, r₀, hr₀, hn, -⟩ := h.ready
  rw [hr] at hr₀
  cases hr₀
  cases a with
  | select =>
    simp only [step, BufferRing.select, hr] at hs
    split at hs
    · cases hs
    · rename_i hsel
      simp only [Option.map_eq_some_iff, Prod.mk.injEq, Prod.exists] at hsel
      obtain ⟨bid, r₁, hsel, rfl, rfl⟩ := hsel
      cases hs
      cases hr'
      exact .inl (BufRing.slots_select (hn.trans hk) (by omega) hsel).2.1
  | release cqe =>
    simp only [step] at hs
    split at hs
    · rename_i hid
      have hfull := h.not_full hid
      simp only [BufferRing.available, hr, BufRing.available, List.length_map, BufRing.slots, window_length] at hfull
      split at hs
      · cases hs
      · rename_i hrel
        obtain ⟨buffer, r₁, -, hr₁, rfl⟩ := BufferRing.release_eq_ok.1 hrel
        obtain rfl : r = r₁ := Option.some.inj (hr.symm.trans hr₁)
        cases hs
        cases hr'
        have hslot := BufRing.tail_slot r (hn.trans hk) (by omega) 0
        rw [Nat.add_zero, Nat.add_zero] at hslot
        refine .inr ⟨h.span ▸ hfull, ⟨buffer.data, buffer.size, UInt16.ofNat cqe.bufferId⟩, ?_⟩
        simp only [BufRing.advance, BufRing.add, ← h.span, ← hn, Nat.add_zero, hslot]
    · cases hs

/-- Writing it leaves the slots from head to tail alone. -/
theorem lends_keeps {buffers : List Span} {s s' : Provided} {a : Action} (h : Lends buffers s)
    (hs : s.step a = .ok s') {r r' : BufRing} (hr : s.bufferRing.bufferRing = some r)
    (hr' : s'.bufferRing.bufferRing = some r') {i : Nat} (hi : i < r.waiting) :
    r'.bufs ((r.head.toNat + i) % buffers.length) = r.bufs ((r.head.toNat + i) % buffers.length) := by
  rcases lends_bufs h hs hr hr' with hb | ⟨hfull, x, hb⟩ <;> rw [hb]
  exact Function.update_of_ne (slot_ne _ _ hi hfull) _ _

/-- A slot that is written is one of the ring's. -/
theorem lends_writes {buffers : List Span} {s s' : Provided} {a : Action} (h : Lends buffers s)
    (hs : s.step a = .ok s') {r r' : BufRing} (hr : s.bufferRing.bufferRing = some r)
    (hr' : s'.bufferRing.bufferRing = some r') {j : Nat} (hj : r'.bufs j ≠ r.bufs j) : j < buffers.length := by
  rcases lends_bufs h hs hr hr' with hb | ⟨hfull, x, hb⟩ <;> rw [hb] at hj
  · exact absurd rfl hj
  · by_cases he : j = (r.head.toNat + r.waiting) % buffers.length
    · rw [he]
      exact Nat.mod_lt _ (by omega)
    · exact absurd (Function.update_of_ne he _ _) hj

section Refinement
variable {b₀ : BufferRing} {buffers : List Span} {status : Int} {k : Nat} {s : Provided}

theorem lends_run (hk : buffers.length = 2 ^ k) (hk15 : k ≤ 15)
    (hset : (b₀.setupBuffers buffers status).1.success = true)
    (h : Run step anyAction ⟨(b₀.setupBuffers buffers status).2, []⟩ s) : Lends buffers s :=
  Run.inv (Lends buffers) (lends_setup hk hk15 hset).1 (fun _ _ _ hi _ hs => lends_step hi hs) h

/-- After a successful `setupBuffers` on a power of two of buffers, up to
`2^15`, and any selections and releases: the ring is the queue of ids that the
same selections and releases make of `0, 1, …`. -/
theorem buffer_ring_refines_fifo (hk : buffers.length = 2 ^ k) (hk15 : k ≤ 15)
    (hset : (b₀.setupBuffers buffers status).1.success = true)
    (h : Run step anyAction ⟨(b₀.setupBuffers buffers status).2, []⟩ s) :
    -- a run of the queue leads to what is in the slots and what is selected, and the next actions are the queue's
    Run Fifo.step anyAction ⟨List.range buffers.length, []⟩ s.queue ∧
      (∀ a, (s.step a).toOption.map queue = (s.queue.step a.onQueue).toOption) ∧
      -- the slots hold the ids that are not selected, each with its own buffer
      s.queue.waiting = s.bufferRing.slots.map (·.bid.toNat) ∧
      (s.queue.waiting ++ s.selected).Perm (List.range buffers.length) ∧
      (∀ x ∈ s.bufferRing.slots, buffers[x.bid.toNat]? = some ⟨x.addr, x.len⟩) ∧
      -- none of them is overwritten
      (∀ a s' r r', s.step a = .ok s' → s.bufferRing.bufferRing = some r → s'.bufferRing.bufferRing = some r' →
        ∀ i, i < r.waiting →
          r'.bufs ((r.head.toNat + i) % buffers.length) = r.bufs ((r.head.toNat + i) % buffers.length)) ∧
      -- a completion's buffer is found, and no index is out of the ring or the span
      (∀ a s' r r', s.step a = .ok s' → s.bufferRing.bufferRing = some r → s'.bufferRing.bufferRing = some r' →
        ∀ j, r'.bufs j ≠ r.bufs j → j < buffers.length) ∧
      (∀ cqe : Cqe, cqe.bufferId ∈ s.selected →
        cqe.bufferId < buffers.length ∧ s.bufferRing.get cqe = buffers[cqe.bufferId]?) ∧
      ∀ a f, s.step a ≠ .error (.fault f) := by
  have hl := lends_run hk hk15 hset h
  refine ⟨?_, step_queue hl, s.bufferRing.available_eq, hl.ids, hl.contents, ?_, ?_, ?_, lends_no_fault hl⟩
  · have h0 : (⟨List.range buffers.length, []⟩ : Fifo Nat) =
        queue ⟨(b₀.setupBuffers buffers status).2, []⟩ := by
      rw [queue, (lends_setup hk hk15 hset).2]
    rw [h0]
    refine Run.simulate queue ?_ h
    intro s a s' hr _ hs
    have hq := step_queue (lends_run hk hk15 hset hr) a
    rw [hs] at hq
    cases hs' : s.queue.step a.onQueue with
    | error e =>
      rw [hs'] at hq
      cases hq
    | ok q =>
      rw [hs'] at hq
      cases hq
      exact Run.refl.step trivial hs'
  · intro a s' r r' hs hr hr' i hi
    exact lends_keeps hl hs hr hr' hi
  · intro a s' r r' hs hr hr' j hj
    exact lends_writes hl hs hr hr' hj
  · intro cqe hid
    rw [BufferRing.get_eq, hl.span]
    exact ⟨hl.span ▸ hl.selected_lt hid, rfl⟩

end Refinement

/-- Two buffers: both are selected and given back in the other order, and one is selected again. -/
theorem buffer_ring_refines_fifo_pair :
    ∃ s, Run step anyAction ⟨(({} : BufferRing).setupBuffers [⟨4096, 64⟩, ⟨8192, 64⟩] 0).2, []⟩ s ∧
      s.selected = [1] ∧ s.queue.waiting = [0] ∧
      Run Fifo.step anyAction ⟨List.range 2, []⟩ s.queue := by
  obtain ⟨s, hr, hp⟩ := exists_run_any step ⟨(({} : BufferRing).setupBuffers [⟨4096, 64⟩, ⟨8192, 64⟩] 0).2, []⟩
    [.select, .select, .release ⟨100, 64, 0x10001, none⟩, .release ⟨100, 64, 1, none⟩, .select]
    (fun s => s.selected == [1] && s.queue.waiting == [0]) (by decide +kernel)
  simp only [Bool.and_eq_true, beq_iff_eq] at hp
  exact ⟨s, hr, hp.1, hp.2, (buffer_ring_refines_fifo (k := 1) rfl (by decide) rfl hr).1⟩

end Provided

end RingNet
