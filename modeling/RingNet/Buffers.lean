import RingNet.Ledger
/-!
# Where the provided buffers are

Every buffer id should be in one place: in a slot of the buffer ring for the
kernel to take, or named by one completion that has not been processed. The
kernel's side is right by its own rules. The loop gives a buffer back after
handing a multi-shot read's event over, whether the completion used a buffer
or not, and on its other paths never. So the ids stay in one place as long as
exactly the completions with `IORING_CQE_F_BUFFER` reach the event
(`BufferMatches`), and an end of stream is enough to break it.
-/

namespace RingNet

open Lib IoUring

theorem buffers_length : BUFFERS.length = 2048 := by
  simp [BUFFERS]

namespace EventLoop

/-! ## The buffer ring in a run -/

/-- The buffers are the loop's; a ring that was set up is in order; and
completions name buffers there are. -/
structure Sized (status : Int) (l : EventLoop) : Prop where
  buffers : l.bufferRing.buffers.length = 2048
  ring : l.bufferRing.Ready ∨ status ≠ 0 ∧ l.bufferRing.bufferRing = none
  ids : ∀ c ∈ l.ring.posted, c.bufferId < 2048

theorem new_bufferRing (n : Nat) (st : Int) : (new n st).bufferRing = (BufferRing.setupBuffers {} BUFFERS st).2 := by
  simp only [new]

theorem sized_new (n : Nat) (st : Int) : Sized st (new n st) := by
  have hk : BUFFERS.length = 2 ^ 11 := buffers_length
  by_cases hst : st = 0
  · subst hst
    refine ⟨?_, .inl ?_, by simp⟩ <;> rw [new_bufferRing]
    · rw [BufferRing.setupBuffers_eq BUFFERS hk (by decide)]
      simp only [buffers_length]
    · exact (BufferRing.setupBuffers_ready BUFFERS hk (by decide)).1
  · refine ⟨?_, .inr ⟨hst, ?_⟩, by simp⟩ <;> rw [new_bufferRing, BufferRing.setupBuffers_failed BUFFERS hk (by decide) hst]
    simp only [buffers_length]

/-- Only the kernel's completions and the end of an iteration touch the buffer ring. -/
theorem bufferRing_frame {l l' : EventLoop} {a : Action} (he : Effect l a l') (ha : a ≠ .callbackReturn)
    (hp : ∀ i res flags, a ≠ .post i res flags) : l'.bufferRing = l.bufferRing := by
  cases he with
  | callbackReturn _ _ _ => exact absurd rfl ha
  | post _ _ _ => exact absurd rfl (hp _ _ _)
  | checkStatus _ => rw [l.checkStatus_same]
  | _ => rfl

/-- A completion either uses no buffer or takes the first one available. -/
theorem post_buffer {l l' : EventLoop} {st : Int} (h : Sized st l) {i : Nat} {res : Int} {flags : UInt32}
    (he : Effect l (.post i res flags) l') :
    ∃ c, l'.ring.posted = l.ring.posted ++ [c] ∧ c.bufferId < 2048 ∧ Sized st l' ∧
      (c.hasBuffer = false ∧ l'.bufferRing = l.bufferRing ∨
        c.hasBuffer = true ∧ l.bufferRing.Ready ∧ l.bufferRing.available = c.bufferId :: l'.bufferRing.available) := by
  cases he with
  | @post _ _ _ e b hin hmore hbuf =>
    have hids : ∀ {k : Nat}, k < 2048 → (⟨e.userData, res, flags, e.owner⟩ : Cqe).bufferId = k →
        ∀ c ∈ l.ring.posted ++ [⟨e.userData, res, flags, e.owner⟩], c.bufferId < 2048 := by
      intro k hk he c hc
      rcases List.mem_append.1 hc with hc | hc
      · exact h.ids c hc
      · rw [List.mem_singleton] at hc
        rw [hc, he]
        exact hk
    refine ⟨⟨e.userData, res, flags, e.owner⟩, rfl, ?_⟩
    rcases hbuf with ⟨hno, hid, rfl⟩ | ⟨hyes, -, bid, hsel, hid⟩
    · rw [hid]
      exact ⟨by decide, ⟨h.buffers, h.ring, hids (by decide) hid⟩, .inl ⟨hno, rfl⟩⟩
    · rcases h.ring with hr | ⟨-, hnone⟩
      · obtain ⟨hr', hb, hav, hlt⟩ := BufferRing.select_ready hr hsel
        rw [h.buffers] at hlt
        rw [hid]
        exact ⟨hlt, ⟨hb ▸ h.buffers, .inl hr', hids hlt hid⟩, .inr ⟨hyes, hr, hav⟩⟩
      · simp [BufferRing.select, hnone] at hsel

theorem sized_step {l l' : EventLoop} {st : Int} {a : Action} (h : Sized st l) (he : Effect l a l') : Sized st l' := by
  by_cases hcb : a = .callbackReturn
  · subst hcb
    have hpost := posted_step he
    dsimp only at hpost
    cases he with
    | @callbackReturn head processed c rb b q hph hb hq =>
      have hids : ∀ x ∈ q.ring.posted, x.bufferId < 2048 := by
        have : q.ring.posted = l.ring.posted := hpost
        rw [this]
        exact h.ids
      cases rb with
      | false => cases hb; exact ⟨h.buffers, h.ring, hids⟩
      | true =>
        rcases h.ring with hr | ⟨-, hnone⟩
        · obtain ⟨hr', hbs, -⟩ := BufferRing.release_ready hr hb
          exact ⟨hbs ▸ h.buffers, .inl hr', hids⟩
        · -- without a ring there is nothing to give a buffer back to
          obtain ⟨-, r, -, hr, -⟩ := BufferRing.release_eq_ok.1 hb
          rw [hnone] at hr
          cases hr
  · by_cases hp : ∃ i res flags, a = .post i res flags
    · obtain ⟨i, res, flags, rfl⟩ := hp
      obtain ⟨c, -, -, hs, -⟩ := post_buffer h he
      exact hs
    · have hb : l'.bufferRing = l.bufferRing :=
        bufferRing_frame he hcb fun i res flags e => hp ⟨i, res, flags, e⟩
      have hpost : l'.ring.posted = l.ring.posted := by
        have := posted_step he
        cases a with
        | post i res flags => exact absurd ⟨i, res, flags, rfl⟩ hp
        | _ => exact this
      exact ⟨hb ▸ h.buffers, hb ▸ h.ring, hpost ▸ h.ids⟩

theorem reach_sized {n : Nat} {st : Int} {l : EventLoop} (h : Reachable n st l) : Sized st l :=
  Run.inv (Sized st) (sized_new n st) (fun _ _ _ hi _ hs => sized_step hi (step_effect hs)) h

/-! ## Each buffer in one place -/

/-- The buffers named by completions that have not been processed. -/
def heldIds (l : EventLoop) : List Nat := (l.unfinished.filter Cqe.hasBuffer).map Cqe.bufferId

/-- A completion that reaches the event of a multi-shot read: it leads to such
a request, of a subscriber, and is no error. -/
def reachesReadEvent (l : EventLoop) (c : Cqe) : Bool :=
  match RequestPool.find l.pool c.userData with
  | some b =>
    c.userData != 0 && b.header.valid && b.header.userData.isSome && decide (0 ≤ c.res) && b.header.op == .readMultishot
  | none => false

/-- A completion that is dispatched used a buffer exactly if it reaches the
event of a multi-shot read. -/
def BufferMatches (l : EventLoop) : Action → Prop
  | .next => ∀ c, l.nextCompletion = some c → c.hasBuffer = l.reachesReadEvent c
  | _ => True

/-- The handler in progress gives a buffer back exactly if its completion used one. -/
def HandlerMatches (l : EventLoop) : Prop :=
  ∀ head processed c rb, l.phase = .handling head processed c rb → rb = c.hasBuffer

/-- Every buffer is available or held, and there is one of each. -/
structure OnePlace (l : EventLoop) : Prop where
  handler : HandlerMatches l
  ids : (l.bufferRing.available ++ l.heldIds).Perm (List.range 2048)

/-- What the loop will do with the buffer, by the completion alone. -/
theorem releaseBuffer_eq {l : EventLoop} {st : Int} (ht : Traced l) (hz : Sized st l) {c : Cqe} {d : Dispatched}
    (hc : c ∈ l.ring.posted) (h : l.dispatch c = .ok d) : d.releaseBuffer = l.reachesReadEvent c := by
  rcases dispatch_cases ht h with ⟨h0, rfl⟩ | ⟨b, a, hb, hba, -, hbe, rfl⟩
  · unfold reachesReadEvent
    cases RequestPool.find l.pool c.userData <;> simp [h0]
  · have hf : RequestPool.find l.pool c.userData = some b := by
      rw [← hba]; exact find_of_mem ht.addrs hb
    have h0 : c.userData ≠ 0 := hba ▸ ht.nonnull b hb
    have hlt : c.bufferId < l.bufferRing.buffers.length := hz.buffers ▸ hz.ids c hc
    rw [Bool.eq_iff_iff]
    simp only [reachesReadEvent, hf]
    rw [handlerFor_releases, hbe]
    simp [blockOf, h0, hlt, and_assoc]

theorem heldIds_eq {l l' : EventLoop} (h : l'.unfinished = l.unfinished) : l'.heldIds = l.heldIds := by
  rw [heldIds, heldIds, h]

/-- A completion that takes a buffer moves its id from available to held. -/
theorem onePlace_post {l l' : EventLoop} {st : Int} (h : OnePlace l) (hp : Position l) (hz : Sized st l) {i : Nat}
    {res : Int} {flags : UInt32} (he : Effect l (.post i res flags) l') :
    (l'.bufferRing.available ++ l'.heldIds).Perm (List.range 2048) := by
  obtain ⟨c, hpost, -, -, hbuf⟩ := post_buffer hz he
  have hunf : l'.unfinished = l.unfinished ++ [c] := by
    rw [unfinished, (finished_frame hp he (by simp)).1, hpost, List.drop_append_of_le_length hp.finished_le]
    rfl
  have hheld : l'.heldIds = l.heldIds ++ if c.hasBuffer then [c.bufferId] else [] := by
    rw [heldIds, hunf, List.filter_append, List.map_append]
    by_cases hb : c.hasBuffer = true <;> simp [hb, heldIds]
  rw [hheld]
  rcases hbuf with ⟨hno, hsame⟩ | ⟨hyes, -, hav⟩
  · rw [hsame, hno]
    simpa using h.ids
  · rw [hyes, if_pos rfl]
    refine List.Perm.trans ?_ h.ids
    rw [hav, ← List.append_assoc, List.cons_append]
    exact List.perm_append_singleton _ _

/-- Processing a completion gives its buffer back to the ring. -/
theorem onePlace_callbackReturn {l l' : EventLoop} {st : Int} (h : OnePlace l) (hp : Position l) (hz : Sized st l)
    (he : Effect l .callbackReturn l') : (l'.bufferRing.available ++ l'.heldIds).Perm (List.range 2048) := by
  have hpost := posted_step he
  dsimp only at hpost
  cases he with
  | @callbackReturn head processed c rb b q hph hb hq =>
    obtain ⟨hfin, hc⟩ := hp.handling hph
    have hheld : l.heldIds = (if c.hasBuffer then [c.bufferId] else []) ++
        ((l.ring.posted.drop (head + 1)).filter Cqe.hasBuffer).map Cqe.bufferId := by
      rw [heldIds, unfinished_cons hc, hfin]
      by_cases hx : c.hasBuffer = true <;> simp [hx]
    have hheld' : EventLoop.heldIds { l with
        bufferRing := b, submissionQueue := q, phase := .iterating (head + 1) processed } =
        ((l.ring.posted.drop (head + 1)).filter Cqe.hasBuffer).map Cqe.bufferId := by
      have hq' : q.ring.posted = l.ring.posted := hpost
      rw [heldIds, unfinished, finished, EventLoop.ring, hq']
    have hrb := h.handler head processed c rb hph
    have hids := h.ids
    rw [hheld']
    rw [hheld] at hids
    cases hx : c.hasBuffer with
    | false =>
      rw [hx] at hrb hids
      subst hrb
      cases hb
      simpa using hids
    | true =>
      rw [hx] at hrb hids
      subst hrb
      have hlen := hids.length_eq
      simp only [if_true, List.length_append, List.length_singleton, List.length_range] at hlen
      rcases hz.ring with hr | ⟨-, hnone⟩
      · obtain ⟨-, -, -, hav⟩ := BufferRing.release_ready hr hb
        have hlt : l.bufferRing.available.length < l.bufferRing.buffers.length := by
          rw [hz.buffers]; omega
        show (b.available ++ _).Perm _
        rw [hav hlt, List.append_assoc]
        exact hids
      · obtain ⟨-, r, -, hr, -⟩ := BufferRing.release_eq_ok.1 hb
        rw [hnone] at hr
        cases hr

theorem handlerMatches_step {l l' : EventLoop} {st : Int} {a : Action} (h : HandlerMatches l) (ht : Traced l)
    (hz : Sized st l) (hc : BufferMatches l a) (he : Effect l a l') : HandlerMatches l' := by
  cases he with
  | @dispatch head processed c d hp hpos hd =>
    intro head' processed' c' rb' hph
    cases hph
    have hm : c.hasBuffer = l.reachesReadEvent c := hc c (by simp [nextCompletion, hp, hpos])
    rw [hm]
    exact releaseBuffer_eq ht hz (List.mem_of_getElem? hpos) hd
  | begin _ | finish _ _ | callbackReturn _ _ _ => intro _ _ _ _ hph; cases hph
  | checkStatus _ =>
    rw [l.checkStatus_same]
    exact h
  | _ => exact h

theorem onePlace_step {l l' : EventLoop} {st : Int} {a : Action} (h : OnePlace l) (hp : Position l) (ht : Traced l)
    (hz : Sized st l) (hc : BufferMatches l a) (he : Effect l a l') : OnePlace l' := by
  refine ⟨handlerMatches_step h.handler ht hz hc he, ?_⟩
  by_cases hcb : a = .callbackReturn
  · subst hcb
    exact onePlace_callbackReturn h hp hz he
  · by_cases hpo : ∃ i res flags, a = .post i res flags
    · obtain ⟨i, res, flags, rfl⟩ := hpo
      exact onePlace_post h hp hz he
    · have hpost : l'.ring.posted = l.ring.posted := by
        have := posted_step he
        cases a with
        | post i res flags => exact absurd ⟨i, res, flags, rfl⟩ hpo
        | _ => exact this
      rw [bufferRing_frame he hcb fun i res flags e => hpo ⟨i, res, flags, e⟩,
        heldIds_eq (unfinished_eq (finished_frame hp he hcb).1 hpost)]
      exact h.ids

theorem onePlace_new (n : Nat) : OnePlace (new n 0) := by
  refine ⟨(fun _ _ _ _ hph => by cases hph), ?_⟩
  have hk : BUFFERS.length = 2 ^ 11 := buffers_length
  rw [new_bufferRing, (BufferRing.setupBuffers_ready BUFFERS hk (by decide)).2, buffers_length]
  simp [heldIds, unfinished]

theorem onePlace_run {n : Nat} {l : EventLoop} (h : Run step BufferMatches (new n 0) l) : OnePlace l := by
  refine Run.inv_of (fun l => Position l ∧ Traced l ∧ Sized 0 l) OnePlace ?_ (onePlace_new n) ?_ h
  · intro s hr
    exact ⟨reach_position hr.any, reach_traced hr.any, reach_sized hr.any⟩
  · rintro s a s' ⟨hp, ht, hz⟩ hi hc hs
    exact onePlace_step hi hp ht hz hc (step_effect hs)

/-- As long as exactly the completions that used a buffer reach the event of a
multi-shot read: each buffer is available once or named by one unprocessed
completion, never both; and the buffer an event was handed over with is not
available while the handler runs. -/
theorem buffers_in_one_place {n : Nat} {l : EventLoop} (h : Run step BufferMatches (new n 0) l) :
    (∀ id, id < 2048 → l.bufferRing.available.count id + l.heldIds.count id = 1) ∧ l.heldIds.Nodup ∧
      ∀ head processed c, l.phase = .handling head processed c true → c.bufferId ∉ l.bufferRing.available := by
  obtain ⟨hm, hids⟩ := onePlace_run h
  have hnd : (l.bufferRing.available ++ l.heldIds).Nodup := hids.nodup_iff.2 List.nodup_range
  obtain ⟨-, hheld, hdis⟩ := List.nodup_append'.1 hnd
  refine ⟨fun id hid => ?_, hheld, fun head processed c hph hav => ?_⟩
  · rw [← List.count_append, hids.count_eq]
    exact List.count_eq_one_of_mem List.nodup_range (List.mem_range.2 hid)
  · obtain ⟨-, hc⟩ := (reach_position h.any).handling hph
    apply hdis hav
    rw [heldIds, unfinished_cons hc, List.filter_cons_of_pos (hm head processed c true hph).symm]
    exact List.mem_cons_self

/-- The condition, computed. -/
def bufferMatches (l : EventLoop) : Action → Bool
  | .next => l.nextCompletion.all fun c => c.hasBuffer == l.reachesReadEvent c
  | _ => true

theorem bufferMatches_sound (l : EventLoop) (a : Action) (h : bufferMatches l a = true) : BufferMatches l a := by
  cases a with
  | next =>
    intro c hc
    simp only [bufferMatches, hc, Option.all_some, beq_iff_eq] at h
    exact h
  | _ => trivial

/-- Two connections receive data; the first event is being handled and the
second is still in the queue. -/
theorem buffers_in_one_place_two :
    ∃ l, Run step BufferMatches (new 2 0) l ∧ l.heldIds = [0, 1] ∧ 0 ∉ l.bufferRing.available := by
  obtain ⟨l, hr, hp⟩ := exists_run step bufferMatches bufferMatches_sound (new 2 0)
    [.add (.multiShotRead 5 0) (some 0) 100, .add (.multiShotRead 6 0) (some 1) 200,
      .submit 100 { taken := 2, ret := 2 }, .post 0 10 3, .post 1 20 65539, .begin, .next]
    (fun l => l.heldIds == [0, 1] && l.phase == .handling 0 1 ⟨100, 10, 3, some (.request 0)⟩ true) (by decide +kernel)
  simp only [Bool.and_eq_true, beq_iff_eq] at hp
  exact ⟨l, hr, hp.1, (buffers_in_one_place hr).2.2 0 1 ⟨100, 10, 3, some (.request 0)⟩ hp.2⟩

/-- The buffer in the last slot the kernel will take, when the ring is full. -/
def lastSlot (l : EventLoop) : Option Buf :=
  match l.bufferRing.bufferRing with
  | some r => if 2047 < r.waiting then some (r.bufs ((r.head.toNat + 2047) % r.ringEntries)) else none
  | none => none

theorem lastSlot_available {l : EventLoop} {b : Buf} (h : l.lastSlot = some b) : b.bid.toNat ∈ l.bufferRing.available := by
  unfold lastSlot at h
  split at h
  · rename_i r hr
    split at h
    · rename_i hw
      cases h
      simp only [BufferRing.available, hr, BufRing.available, BufRing.slots]
      exact List.mem_map.2 ⟨_, (mem_window _ _ _ _).2 ⟨2047, hw, rfl⟩, rfl⟩
    · cases h
  · cases h

/-- One connection's stream ends while another's data waits in buffer 0: the
end of stream gives buffer 0 back, and it is available and in use. -/
theorem end_of_stream_frees_used_buffer :
    ∃ l, Reachable 2 0 l ∧ 0 ∈ l.bufferRing.available ∧ 0 ∈ l.heldIds := by
  obtain ⟨l, hr, hp⟩ := exists_run_any step (new 2 0)
    [.add (.multiShotRead 5 0) (some 0) 100, .add (.multiShotRead 6 0) (some 1) 200,
      .submit 100 { taken := 2, ret := 2 }, .post 0 0 0, .post 0 20 3, .begin, .next, .callbackReturn]
    (fun l => l.lastSlot == some ⟨0, 1024, 0⟩ && l.heldIds == [0]) (by decide +kernel)
  simp only [Bool.and_eq_true, beq_iff_eq] at hp
  refine ⟨l, hr, lastSlot_available hp.1, ?_⟩
  rw [hp.2]
  exact List.mem_singleton_self 0

end EventLoop

end RingNet
