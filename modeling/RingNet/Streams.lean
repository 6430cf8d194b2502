import RingNet.Lib.Bytes
import RingNet.Proactor
/-!
# The bytes a stream hands over

The loop together with the memory of its buffers. The kernel puts what arrives
on a connection into the buffer at the head of the buffer ring, at the address
the program wrote into that slot, and completes the connection's multi-shot
read; the event handed over later points into the same memory. In between the
kernel may fill other buffers, and the program gives buffers back.

`heard_eq`: as long as no stream ends with a result of zero, what a subscriber
finds in the spans of its read events is, in order and without a gap, what
arrived for it. An end of stream gives a buffer back that it did not use.

`received` and `shown` are for the proofs only: the bytes that came with each
completion, and what each read event's span held when the handler was called.
-/

namespace RingNet

open Lib

/-- The buffer the kernel takes next. -/
def BufferRing.front (b : BufferRing) : Option Buf :=
  match b.bufferRing with
  | none => none
  | some r => if r.head = r.tail then none else some (r.bufs (r.head.toNat &&& BufRing.mask r.ringEntries))

theorem BufferRing.front_of_select {b b' : BufferRing} {bid : UInt16} (h : b.select = some (bid, b')) :
    ∃ x, b.front = some x ∧ x.bid = bid := by
  unfold select at h
  split at h
  · cases h
  · rename_i r hr
    simp only [Option.map_eq_some_iff, Prod.mk.injEq, BufRing.select] at h
    obtain ⟨⟨bid', r'⟩, hsel, rfl, -⟩ := h
    split at hsel
    · cases hsel
    · rename_i hne
      cases hsel
      refine ⟨_, ?_, rfl⟩
      simp only [front, hr, if_neg hne]

/-- The completion took a buffer. -/
def Action.takesBuffer : Action → Bool
  | .post _ _ flags => flags &&& IORING_CQE_F_BUFFER != 0
  | _ => false

structure Receiving where
  loop : EventLoop
  memory : Nat → UInt8 := fun _ => 0
  received : List (List UInt8) := []
  shown : List (List UInt8) := []

namespace Receiving

inductive Step
  | act (a : Action)
  | receive (i : Nat) (flags : UInt32) (data : List UInt8)

def new (ringEntries : Nat) : Receiving := { loop := .new ringEntries 0 }

/-- What the span of a multi-shot read's event points to. -/
def eventBytes (l : EventLoop) (memory : Nat → UInt8) (v : Invoked) : List UInt8 :=
  match v.what, v.request.bind (l.accepted[·]?) with
  | .subscriber _ (.read _ bytes), some a =>
    if a.request.op = .readMultishot then readAt memory bytes.data bytes.size else []
  | _, _ => []

def step (p : Receiving) : Step → Except Stop Receiving
  | .act a =>
    if a.takesBuffer then .error .disabled
    else
      match p.loop.step a with
      | .error e => .error e
      | .ok loop => .ok { p with
          loop
          received := p.received ++ List.replicate (loop.ring.posted.length - p.loop.ring.posted.length) []
          shown := p.shown ++
            (loop.invocations.drop p.loop.invocations.length).map (eventBytes loop p.memory) }
  | .receive i flags data =>
    match p.loop.bufferRing.front with
    | none => .error .disabled
    | some b =>
      if (Action.post i data.length flags).takesBuffer ∧ data.length ≤ b.len then
        match p.loop.step (.post i data.length flags) with
        | .error e => .error e
        | .ok loop => .ok { p with
            loop
            memory := writeAt p.memory b.addr data
            received := p.received ++ [data] }
      else .error .disabled

/-- Requests come with subscribers, nothing is cancelled, and a stream ends with an error only. -/
def Open (p : Receiving) : Step → Prop
  | .act (.post i res _) => ∀ e, p.loop.ring.inflight[i]? = some e → e.prep.selectsBuffer = true → res < 0
  | .act a => EventLoop.Subscribed p.loop a
  | .receive .. => True

instance (p : Receiving) : (x : Step) → Decidable (Open p x)
  | .act (.post i res _) =>
    inferInstanceAs (Decidable (∀ e ∈ p.loop.ring.inflight[i]?, e.prep.selectsBuffer = true → res < 0))
  | .act (.add r s addr) => inferInstanceAs (Decidable (EventLoop.Subscribed p.loop (.add r s addr)))
  | .act (.cancel fd taken) => inferInstanceAs (Decidable (EventLoop.Subscribed p.loop (.cancel fd taken)))
  | .act (.submit ..) | .act .begin | .act .next | .act .callbackReturn | .act .checkStatus | .receive .. =>
    inferInstanceAs (Decidable True)

/-! ## What a step does -/

inductive Effect (p : Receiving) : Step → Receiving → Prop
  | act {a l} : a.takesBuffer = false → p.loop.step a = .ok l →
      Effect p (.act a) { p with
        loop := l
        received := p.received ++ List.replicate (l.ring.posted.length - p.loop.ring.posted.length) []
        shown := p.shown ++ (l.invocations.drop p.loop.invocations.length).map (eventBytes l p.memory) }
  | receive {i flags data b l} : p.loop.bufferRing.front = some b →
      (Action.post i data.length flags).takesBuffer = true → data.length ≤ b.len →
      p.loop.step (.post i data.length flags) = .ok l →
      Effect p (.receive i flags data) { p with
        loop := l, memory := writeAt p.memory b.addr data, received := p.received ++ [data] }

theorem step_effect {p p' : Receiving} {x : Step} (h : p.step x = .ok p') : Effect p x p' := by
  cases x with
  | act a =>
    simp only [step] at h
    split at h
    · cases h
    · rename_i hb
      split at h
      · cases h
      · rename_i l hl
        cases h
        exact .act (by simpa using hb) hl
  | receive i flags data =>
    simp only [step] at h
    split at h
    · cases h
    · rename_i b hb
      split at h
      · rename_i hc
        split at h
        · cases h
        · rename_i l hl
          cases h
          exact .receive hb hc.1 hc.2 hl
      · cases h

/-- A step is one action of the loop, which is as `Subscribed` allows. -/
theorem effect_loop {p p' : Receiving} {x : Step} (hc : Open p x) (he : Effect p x p') :
    ∃ a, p.loop.step a = .ok p'.loop ∧ EventLoop.Subscribed p.loop a := by
  cases he with
  | @act a l _ hl =>
    refine ⟨a, hl, ?_⟩
    cases a <;> first | exact hc | trivial
  | receive _ _ _ hl => exact ⟨_, hl, trivial⟩

theorem subscribed_loop {n : Nat} {p : Receiving} (h : Run step Open (new n) p) :
    Run EventLoop.step EventLoop.Subscribed (.new n 0) p.loop := by
  refine Run.simulate (·.loop) ?_ h
  intro s x s' _ hc hs
  obtain ⟨a, hl, hsub⟩ := effect_loop hc (step_effect hs)
  exact Run.refl.step hsub hl

/-! ## What came with a completion -/

/-- A completion with data is a multi-shot read's and counts its bytes; one
without is no such read's, or an error. -/
def CameWith (l : EventLoop) (c : Cqe) (data : List UInt8) : Prop :=
  ∃ id a, c.owner = some (.request id) ∧ l.accepted[id]? = some a ∧
    (c.hasBuffer = true ∧ a.request.op = .readMultishot ∧ c.res = data.length ∨
      c.hasBuffer = false ∧ data = [] ∧ (a.request.op = .readMultishot → c.res < 0))

theorem CameWith.mono {l l' : EventLoop} {a : Action} (he : EventLoop.Effect l a l') {c : Cqe} {data : List UInt8}
    (h : CameWith l c data) : CameWith l' c data := by
  obtain ⟨id, x, ho, hx, hcase⟩ := h
  exact ⟨id, x, ho, EventLoop.accepted_mono he hx, hcase⟩

def Arrived (p : Receiving) : Prop := List.Forall₂ (CameWith p.loop) p.loop.ring.posted p.received

theorem selects_iff (r : Request) : r.prep.selectsBuffer = true ↔ r.op = .readMultishot := by
  cases r <;> simp [Request.prep, Prep.selectsBuffer, Request.op]

/-- What the kernel posts is one entry's completion, of a request. -/
theorem post_entry {n : Nat} {l l' : EventLoop} (h : Run EventLoop.step EventLoop.Subscribed (.new n 0) l) {i : Nat}
    {res : Int} {flags : UInt32} (he : EventLoop.Effect l (.post i res flags) l') :
    ∃ e id a, l.ring.inflight[i]? = some e ∧ l'.ring.posted = l.ring.posted ++ [⟨e.userData, res, flags, e.owner⟩] ∧
      e.owner = some (.request id) ∧ l'.accepted[id]? = some a ∧
      (e.prep.selectsBuffer = true ↔ a.request.op = .readMultishot) := by
  obtain ⟨e, hin, hpost⟩ := EventLoop.posted_step he
  obtain ⟨id, a, ho, ha, hprep⟩ := (EventLoop.subscribed_intact h).entry (EventLoop.subscribed_cancels h) hin
  exact ⟨e, id, a, hin, hpost, ho, EventLoop.accepted_mono he ha, by rw [hprep, selects_iff]⟩

/-- A completion that took a buffer was one of a multi-shot read. -/
theorem buffer_selects {l l' : EventLoop} {i : Nat} {res : Int} {flags : UInt32} {e : Sqe}
    (he : EventLoop.Effect l (.post i res flags) l') (hin : l.ring.inflight[i]? = some e)
    (hb : (⟨e.userData, res, flags, e.owner⟩ : Cqe).hasBuffer = true) :
    e.prep.selectsBuffer = true ∧ ∃ bid, l.bufferRing.select = some (bid, l'.bufferRing) ∧
      (⟨e.userData, res, flags, e.owner⟩ : Cqe).bufferId = bid.toNat := by
  cases he with
  | post hin' _ hbuf =>
    rw [hin] at hin'
    cases hin'
    rcases hbuf with ⟨hno, -⟩ | ⟨-, hsel, bid, hbid, hid⟩
    · rw [hno] at hb
      cases hb
    · exact ⟨hsel, bid, hbid, hid⟩

theorem arrived_step {n : Nat} {p p' : Receiving} {x : Step}
    (hrun : Run EventLoop.step EventLoop.Subscribed (.new n 0) p.loop) (h : Arrived p) (hc : Open p x)
    (he : Effect p x p') : Arrived p' := by
  cases he with
  | @act a l hb hl =>
    have he := EventLoop.step_effect hl
    have hold : List.Forall₂ (CameWith l) p.loop.ring.posted p.received := h.imp fun _ _ hw => hw.mono he
    cases a with
    | post i res flags =>
      obtain ⟨e, id, a, hin, hpost, ho, ha, hsel⟩ := post_entry hrun he
      simp only [Arrived, hpost, List.length_append, List.length_singleton, Nat.add_sub_cancel_left]
      refine List.rel_append hold (.cons ⟨id, a, ho, ha, .inr ⟨hb, rfl, fun hop => ?_⟩⟩ .nil)
      exact hc e hin (hsel.2 hop)
    | _ =>
      have hpost := EventLoop.posted_step he
      dsimp only at hpost
      simp only [Arrived, hpost, Nat.sub_self, List.replicate_zero, List.append_nil]
      exact hold
  | @receive i flags data b l hfront hb hlen hl =>
    have he := EventLoop.step_effect hl
    have hold : List.Forall₂ (CameWith l) p.loop.ring.posted p.received := h.imp fun _ _ hw => hw.mono he
    obtain ⟨e, id, a, hin, hpost, ho, ha, hsel⟩ := post_entry hrun he
    simp only [Arrived, hpost]
    exact List.rel_append hold
      (.cons ⟨id, a, ho, ha, .inl ⟨hb, hsel.1 (buffer_selects he hin hb).1, rfl⟩⟩ .nil)

section Runs
variable {n : Nat} {p : Receiving} (h : Run step Open (new n) p)
include h

theorem arrived_run : Arrived p :=
  Run.inv_of (fun p => Run EventLoop.step EventLoop.Subscribed (.new n 0) p.loop) Arrived (fun _ hr => subscribed_loop hr)
    .nil (fun _ _ _ hr hi hc hs => arrived_step hr hi hc (step_effect hs)) h

/-- What came with the `k`-th completion. -/
theorem came_with {k : Nat} {c : Cqe} (hc : p.loop.ring.posted[k]? = some c) :
    ∃ data, p.received[k]? = some data ∧ CameWith p.loop c data := by
  obtain ⟨hlen, hget⟩ := List.forall₂_iff_get.1 (arrived_run h)
  obtain ⟨hk, rfl⟩ := List.getElem?_eq_some_iff.1 hc
  exact ⟨p.received[k], List.getElem?_eq_getElem (hlen ▸ hk), hget k hk (hlen ▸ hk)⟩

open EventLoop in
/-- The completion that is dispatched next reaches the event of a multi-shot
read exactly if it used a buffer. -/
theorem buffer_matches (a : Action) : BufferMatches p.loop a := by
  cases a with
  | next =>
    intro c hc
    have hsub := subscribed_loop h
    obtain ⟨-, hfront⟩ := nextCompletion_front hc
    obtain ⟨data, -, id, a, ho, ha, hcase⟩ := came_with h hfront
    obtain ⟨id', a', ho', ha', hne, hfind⟩ :=
      (subscribed_intact hsub).block (reach_traced hsub.any) (subscribed_cancels hsub) hfront
    rw [ho] at ho'
    cases ho'
    rw [ha] at ha'
    cases ha'
    obtain ⟨s, hs⟩ := accepted_subscribed hsub a (List.mem_of_getElem? ha)
    simp only [reachesReadEvent, hfind, blockOf, Request.header_valid, Request.header_userData, Request.header_op, hs]
    rcases hcase with ⟨hb, hop, hres⟩ | ⟨hb, -, hop⟩
    · simp [hb, hop, hne, hres]
    · rw [hb]
      by_cases hm : a.request.op = .readMultishot
      · simp [hm, hop hm]
      · simp [hm]
  | _ => trivial

end Runs

theorem loop_run {n : Nat} {p : Receiving} (h : Run step Open (new n) p) :
    Run EventLoop.step EventLoop.BufferMatches (.new n 0) p.loop := by
  refine Run.simulate (·.loop) ?_ h
  intro s x s' hr hc hs
  obtain ⟨a, hl, -⟩ := effect_loop hc (step_effect hs)
  exact Run.refl.step (buffer_matches hr a) hl

/-! ## The slots of the buffer ring -/

/-- Each slot describes the buffer it names. -/
def Described (b : BufferRing) : Prop :=
  ∀ r, b.bufferRing = some r → r.ringEntries = 2048 ∧
    ∀ j, j < 2048 → (r.bufs j).addr = 1024 * (r.bufs j).bid.toNat ∧ (r.bufs j).len = 1024

theorem Described.front {b : BufferRing} (h : Described b) {x : Buf} (hx : b.front = some x) :
    x.addr = 1024 * x.bid.toNat ∧ x.len = 1024 := by
  unfold BufferRing.front at hx
  split at hx
  · cases hx
  · rename_i r hr
    split at hx
    · cases hx
    · cases hx
      obtain ⟨hn, hj⟩ := h r hr
      apply hj
      rw [hn]
      exact Nat.lt_of_le_of_lt Nat.and_le_right (by decide)

theorem described_release {b b' : BufferRing} {c : Cqe} (h : Described b) (hb : b.buffers = BUFFERS)
    (hr : b.release c = .ok b') : Described b' := by
  obtain ⟨buffer, r, hbuf, hring, rfl⟩ := BufferRing.release_eq_ok.1 hr
  rw [hb] at hbuf
  have hlt : c.bufferId < 2048 := buffers_length ▸ (List.getElem?_eq_some_iff.1 hbuf).1
  rw [EventLoop.buffers_getElem? hlt, Option.some.injEq] at hbuf
  subst hbuf
  obtain ⟨hn, hj⟩ := h r hring
  intro r' hr'
  cases hr'
  refine ⟨hn, fun j hlt' => ?_⟩
  simp only [BufRing.advance, BufRing.add, Function.update_apply]
  split
  · exact ⟨by rw [BufferRing.ofNat_toNat hlt (by decide)], rfl⟩
  · exact hj j hlt'

theorem described_select {b b' : BufferRing} {bid : UInt16} (h : Described b) (hs : b.select = some (bid, b')) :
    Described b' := by
  unfold BufferRing.select at hs
  split at hs
  · cases hs
  · rename_i r hr
    simp only [Option.map_eq_some_iff, Prod.mk.injEq, BufRing.select] at hs
    obtain ⟨⟨bid', r'⟩, hsel, rfl, rfl⟩ := hs
    split at hsel
    · cases hsel
    · cases hsel
      intro r'' hr''
      cases hr''
      exact h r hr

theorem described_run {n : Nat} {l : EventLoop} (h : EventLoop.Reachable n 0 l) : Described l.bufferRing := by
  refine Run.inv_of (fun l => l.bufferRing.buffers = BUFFERS) (fun l => Described l.bufferRing)
    (fun _ hr => EventLoop.reach_buffers hr) ?_ ?_ h
  · have hk : BUFFERS.length = 2 ^ 11 := buffers_length
    rw [EventLoop.new_bufferRing, BufferRing.setupBuffers_eq BUFFERS hk (by decide)]
    intro r hr
    obtain rfl : BufRing.filled 0 BUFFERS = r := Option.some.inj hr
    refine ⟨(BufRing.filled_ringEntries 0 BUFFERS).trans buffers_length, fun j hj => ?_⟩
    have hlt : j < BUFFERS.length := buffers_length ▸ hj
    have hbuf := EventLoop.buffers_getElem? hj
    rw [List.getElem?_eq_getElem hlt, Option.some.injEq] at hbuf
    rw [BufRing.filled_bufs 0 BUFFERS hk j hlt, hbuf]
    exact ⟨by rw [BufferRing.ofNat_toNat hj (by decide)], rfl⟩
  · intro s a s' hb hi _ hs
    cases EventLoop.step_effect hs with
    | @callbackReturn head processed c rb b q hph hrel hq =>
      cases rb with
      | false => cases hrel; exact hi
      | true => exact described_release hi hb hrel
    | post _ _ hbuf =>
      rcases hbuf with ⟨-, -, rfl⟩ | ⟨-, -, bid, hsel, -⟩
      · exact hi
      · exact described_select hi hsel
    | checkStatus _ => rw [s.checkStatus_same]; exact hi
    | _ => exact hi

/-! ## What is in the buffers -/

/-- The data of the completions that are not finished is still where the kernel put it. -/
def Held (p : Receiving) : Prop :=
  ∀ k c data, p.loop.finished ≤ k → p.loop.ring.posted[k]? = some c → p.received[k]? = some data →
    c.hasBuffer = true → Stored p.memory (1024 * c.bufferId) data ∧ data.length ≤ 1024

open EventLoop in
theorem held_act {p : Receiving} {a : Action} {l : EventLoop} (h : Held p) (hp : Position p.loop) (ht : Traced p.loop)
    (hlen : p.received.length = p.loop.ring.posted.length) (hb : a.takesBuffer = false) (he : EventLoop.Effect p.loop a l)
    {received shown : List (List UInt8)} (hrec : ∃ more, received = p.received ++ more) :
    Held { p with loop := l, received, shown } := by
  intro k c data hk hc hd hbuf
  obtain ⟨more, rfl⟩ := hrec
  have hfin : p.loop.finished ≤ l.finished := by
    by_cases hcb : a = .callbackReturn
    · subst hcb
      obtain ⟨-, -, -, -, -, -, -, -, hf, -⟩ := callbackReturn_spec hp ht he
      omega
    · rw [(finished_frame hp he hcb).1]
  have hold : p.loop.ring.posted[k]? = some c := by
    have hpost := posted_step he
    cases a with
    | post i res flags =>
      obtain ⟨e, -, hpost⟩ := hpost
      rw [show l.ring.posted = _ from hpost] at hc
      rcases Nat.lt_or_ge k p.loop.ring.posted.length with hlt | hge
      · rwa [List.getElem?_append_left hlt] at hc
      · -- the new completion took no buffer
        rw [List.getElem?_append_right hge, List.getElem?_singleton] at hc
        split at hc
        · cases hc
          rw [show (⟨e.userData, res, flags, e.owner⟩ : Cqe).hasBuffer = false from hb] at hbuf
          cases hbuf
        · cases hc
    | _ => dsimp only at hpost; exact hpost ▸ hc
  have hlt : k < p.received.length := hlen ▸ (List.getElem?_eq_some_iff.1 hold).1
  exact h k c data (hfin.trans hk) hold (by rwa [List.getElem?_append_left hlt] at hd) hbuf

open EventLoop in
/-- The kernel fills a buffer that no unfinished completion names. -/
theorem held_receive {p : Receiving} {i : Nat} {flags : UInt32} {data : List UInt8} {b : Buf} {l : EventLoop}
    (h : Held p) (hp : Position p.loop) (hz : Sized 0 p.loop) (ho : OnePlace p.loop) (hdes : Described p.loop.bufferRing)
    (hlen : p.received.length = p.loop.ring.posted.length) (hfront : p.loop.bufferRing.front = some b)
    (hb : (Action.post i data.length flags).takesBuffer = true) (hfits : data.length ≤ b.len)
    (he : EventLoop.Effect p.loop (.post i data.length flags) l) :
    Held { p with loop := l, memory := writeAt p.memory b.addr data, received := p.received ++ [data] } := by
  obtain ⟨e, hin, hpost⟩ := posted_step he
  obtain ⟨-, bid, hsel, hid⟩ := buffer_selects he hin hb
  obtain ⟨x, hx, rfl⟩ := BufferRing.front_of_select hsel
  obtain rfl : b = x := Option.some.inj (hfront.symm.trans hx)
  obtain ⟨haddr, hblen⟩ := hdes.front hfront
  obtain ⟨-, -, hav, -⟩ := BufferRing.select_ready (hz.ring.resolve_right fun hne => hne.1 rfl) hsel
  have hfin := (finished_frame hp he (by simp)).1
  intro k c d hk hc hd hbuf
  rw [show l.ring.posted = _ from hpost] at hc
  rcases Nat.lt_or_ge k p.loop.ring.posted.length with hlt | hge
  · -- an earlier completion holds another buffer
    rw [List.getElem?_append_left hlt] at hc
    rw [List.getElem?_append_left (hlen ▸ hlt)] at hd
    obtain ⟨hst, hdl⟩ := h k c d (hfin ▸ hk) hc hd hbuf
    have hheld : c.bufferId ∈ p.loop.heldIds := by
      refine List.mem_map_of_mem (List.mem_filter.2 ⟨?_, hbuf⟩)
      refine List.mem_of_getElem? (i := k - p.loop.finished) ?_
      rw [unfinished, List.getElem?_drop, Nat.add_sub_cancel' (hfin ▸ hk)]
      exact hc
    have hne : c.bufferId ≠ b.bid.toNat := by
      intro heq
      have hnd : (p.loop.bufferRing.available ++ p.loop.heldIds).Nodup := ho.ids.nodup_iff.2 List.nodup_range
      have hfree : c.bufferId ∈ p.loop.bufferRing.available := by
        rw [hav, heq]
        exact List.mem_cons_self
      exact (List.nodup_append'.1 hnd).2.2 hfree hheld
    refine ⟨hst.writeAt ?_, hdl⟩
    rw [haddr]
    omega
  · have hk0 : k = p.loop.ring.posted.length := by
      have hlt := (List.getElem?_eq_some_iff.1 hc).1
      rw [List.length_append, List.length_singleton] at hlt
      omega
    subst hk0
    rw [List.getElem?_concat_length, Option.some.injEq] at hc
    rw [← hlen, List.getElem?_concat_length, Option.some.injEq] at hd
    subst hc hd
    rw [hid, ← haddr]
    exact ⟨stored_writeAt _ _ _, hblen ▸ hfits⟩

section Runs
variable {n : Nat} {p : Receiving} (h : Run step Open (new n) p)
include h

theorem held_run : Held p := by
  refine Run.inv_of (fun p => Run step Open (new n) p) Held (fun _ hr => hr) ?_ ?_ h
  · intro k c data _ hc
    simp [new] at hc
  · intro s x s' hr hi hc hs
    have hloop := loop_run hr
    have hlen := (List.forall₂_iff_get.1 (arrived_run hr)).1.symm
    cases step_effect hs with
    | act hb hl =>
      exact held_act hi (EventLoop.reach_position hloop.any) (EventLoop.reach_traced hloop.any) hlen hb
        (EventLoop.step_effect hl) ⟨_, rfl⟩
    | receive hfront hb hfits hl =>
      exact held_receive hi (EventLoop.reach_position hloop.any) (EventLoop.reach_sized hloop.any)
        (EventLoop.onePlace_run hloop) (described_run hloop.any) hlen hfront hb hfits (EventLoop.step_effect hl)

open EventLoop in
/-- The span of the event for the completion dispatched next holds what came with it. -/
theorem event_bytes {c : Cqe} {d : Dispatched} {l : EventLoop} (hfin : p.loop.finished = p.loop.dispatched)
    (hc : p.loop.ring.posted[p.loop.dispatched]? = some c) (hd : p.loop.dispatch c = .ok d)
    (hacc : l.accepted = p.loop.accepted) :
    p.received[p.loop.dispatched]? =
      some (eventBytes l p.memory ⟨p.loop.dispatched, c.owner, d.request, d.what⟩) := by
  have hsub := subscribed_loop h
  obtain ⟨data, hdata, id, a, ho, ha, hcase⟩ := came_with h hc
  obtain ⟨id', a', ho', ha', hne, hfind⟩ :=
    (subscribed_intact hsub).block (reach_traced hsub.any) (subscribed_cancels hsub) (hfin ▸ hc)
  obtain rfl : id = id' := by simpa [ho] using ho'
  obtain rfl : a = a' := Option.some.inj (ha.symm.trans ha')
  obtain ⟨s, hs⟩ := accepted_subscribed hsub a (List.mem_of_getElem? ha)
  rw [dispatch_eq hne hfind, Except.ok.injEq] at hd
  subst hd
  have hwhat := handlerFor_reply (reach_sized hsub.any) (reach_buffers hsub.any) (List.mem_of_getElem? hc) ⟨s, hs⟩
  have hval : c.report.value = (c.res, c.flags) := rfl
  simp only [reply, hs, hval] at hwhat
  rw [hdata]
  simp only [eventBytes, hwhat, Option.bind_some, hacc, ha]
  rcases hcase with ⟨hb, hop, hres⟩ | ⟨hb, rfl, hop⟩
  · obtain ⟨hst, -⟩ := held_run h _ c data (Nat.le_of_eq hfin) hc hdata hb
    obtain ⟨request, subscriber, addr⟩ := a
    cases request with
    | multiShotRead fd group =>
      simp only [Request.event, Request.op, hres, Int.toNat_natCast]
      exact congrArg some hst.symm
    | _ => cases hop
  · obtain ⟨request, subscriber, addr⟩ := a
    cases request with
    | multiShotRead fd group =>
      have hneg := hop rfl
      simp only [Request.event, if_pos hneg]
    | _ =>
      simp only [Request.event, Request.op]
      by_cases hr : c.res < 0 <;> simp [hr]

/-- Each call's event holds what came with its completion. -/
theorem shown_run : p.shown = p.received.take p.loop.dispatched := by
  refine Run.inv_of (fun p => Run step Open (new n) p) (fun p => p.shown = p.received.take p.loop.dispatched)
    (fun _ hr => hr) rfl ?_ h
  intro s x s' hr hi hc hs
  have hloop := loop_run hr
  have hp := EventLoop.reach_position hloop.any
  have hlen := (List.forall₂_iff_get.1 (arrived_run hr)).1.symm
  have hle := EventLoop.dispatched_le hp
  rw [← hlen] at hle
  cases step_effect hs with
  | @act a l hb hl =>
    have he := EventLoop.step_effect hl
    dsimp only
    rcases EventLoop.invocations_step hp he with ⟨hinv, hd⟩ | ⟨processed, c, d, rfl, -, hfin, hpost, hdis, hd, hinv⟩
    · rw [hinv, hd, List.drop_length, List.map_nil, List.append_nil, List.take_append_of_le_length hle]
      exact hi
    · have hsame : l.ring.posted = s.loop.ring.posted := EventLoop.posted_step he
      have hacc : l.accepted = s.loop.accepted := EventLoop.accepted_step he
      have hev := event_bytes hr hfin hpost hdis hacc
      rw [hinv, hd, hsame, Nat.sub_self, List.replicate_zero, List.append_nil, List.drop_left, List.map_singleton,
        List.take_add_one, hev, hi]
      rfl
  | @receive i flags data b l hfront hb hfits hl =>
    dsimp only
    rcases EventLoop.invocations_step hp (EventLoop.step_effect hl) with ⟨-, hd⟩ | ⟨_, _, _, hx, -⟩
    · rw [hd, List.take_append_of_le_length hle]
      exact hi
    · cases hx

end Runs

/-! ## Streams -/

/-- A call's piece of what the subscriber `s` is shown of `fd`. -/
def heardOn (s : SubscriberId) (fd : Fd) (v : Invoked) (bytes : List UInt8) : List UInt8 :=
  match v.what with
  | .subscriber s' (.read fd' _) => if s' = s ∧ fd' = fd then bytes else []
  | _ => []

/-- What the subscriber `s` was shown of `fd`, by the spans of its read events. -/
def heard (p : Receiving) (s : SubscriberId) (fd : Fd) : List UInt8 :=
  (p.loop.invocations.zip p.shown).flatMap fun x => heardOn s fd x.1 x.2

/-- A completion's piece of what arrived on `fd` for `s`. -/
def arrivedOn (l : EventLoop) (s : SubscriberId) (fd : Fd) (c : Cqe) (data : List UInt8) : List UInt8 :=
  match c.owner with
  | some (.request id) =>
    match l.accepted[id]? with
    | some a => if a.subscriber = some s ∧ a.request.fd = fd then data else []
    | none => []
  | _ => []

/-- What the completions dispatched so far brought for the reads of `s` on `fd`. -/
def arrivedFor (p : Receiving) (s : SubscriberId) (fd : Fd) : List UInt8 :=
  ((p.loop.ring.posted.take p.loop.dispatched).zip p.received).flatMap fun x => arrivedOn p.loop s fd x.1 x.2

open EventLoop in
theorem heardOn_eq {n : Nat} {p : Receiving} (h : Run step Open (new n) p) {i : Nat} {v : Invoked} {c : Cqe}
    {data : List UInt8} (hv : p.loop.invocations[i]? = some v) (hc : p.loop.ring.posted[i]? = some c)
    (hd : p.received[i]? = some data) (s : SubscriberId) (fd : Fd) :
    heardOn s fd v data = arrivedOn p.loop s fd c data := by
  obtain ⟨c', id, a, -, hc', ho, ha, hwhat⟩ := called_with (subscribed_loop h) hv
  obtain rfl : c = c' := Option.some.inj (hc.symm.trans hc')
  obtain ⟨data', hd', id', a', ho', ha', hcase⟩ := came_with h hc
  obtain rfl : data = data' := Option.some.inj (hd.symm.trans hd')
  obtain rfl : id = id' := by simpa [ho] using ho'
  obtain rfl : a = a' := Option.some.inj (ha.symm.trans ha')
  obtain ⟨s', hs⟩ := accepted_subscribed (subscribed_loop h) a (List.mem_of_getElem? ha)
  have hval : c.report.value = (c.res, c.flags) := rfl
  simp only [reply, hs, hval] at hwhat
  simp only [heardOn, arrivedOn, hwhat, ho, ha, hs, Option.some.injEq]
  rcases hcase with ⟨-, hop, hres⟩ | ⟨-, rfl, -⟩
  · obtain ⟨request, subscriber, addr⟩ := a
    cases request with
    | multiShotRead fd' group =>
      have hnn : ¬ c.res < 0 := by omega
      simp only [Request.event, if_neg hnn, Request.fd]
      exact if_congr Iff.rfl rfl rfl
    | _ => cases hop
  · split <;> simp

/-- What is shown can be told from the completions if each call's piece can. -/
theorem heard_flatMap {n : Nat} {p : Receiving} (h : Run step Open (new n) p) {s : SubscriberId} {fd : Fd}
    {f : Cqe → List UInt8 → List UInt8}
    (hf : ∀ (i : Nat) v c data, p.loop.invocations[i]? = some v → p.loop.ring.posted[i]? = some c →
      p.received[i]? = some data → heardOn s fd v data = f c data) :
    p.heard s fd = ((p.loop.ring.posted.take p.loop.dispatched).zip p.received).flatMap fun x => f x.1 x.2 := by
  have hsub := subscribed_loop h
  have hpos := EventLoop.reach_position hsub.any
  have hlen := (List.forall₂_iff_get.1 (arrived_run h)).1
  have hinv := congrArg List.length (EventLoop.reach_inOrder hsub.any)
  have hle := EventLoop.dispatched_le hpos
  rw [List.length_map, List.length_range] at hinv
  unfold heard
  rw [shown_run h, List.flatMap_def, List.flatMap_def]
  congr 1
  refine List.ext_getElem (by simp [hinv, hlen]) fun i h₁ h₂ => ?_
  simp only [List.length_map, List.length_zip, List.length_take] at h₁ h₂
  simp only [List.getElem_map, List.getElem_zip, List.getElem_take]
  exact hf i _ _ _ (List.getElem?_eq_getElem (by omega)) (List.getElem?_eq_getElem (by omega))
    (List.getElem?_eq_getElem (by omega))

end Receiving

end RingNet
