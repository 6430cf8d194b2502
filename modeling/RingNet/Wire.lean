import RingNet.Lib.Pieces
import RingNet.Streams
/-!
# What a connection puts on the wire

The loop together with the memory its writes point into. A write holds an
address and a size; the kernel takes bytes from there at some time after it
has taken the entry and before it completes it, as many as it likes, and puts
them on the socket's stream. Meanwhile the program may write to its memory,
and several entries may be with the kernel, which takes their bytes in any
order.

A program that cancels nothing, leaves the bytes of a write alone until the
write completes, and starts no write on a socket before the last one there has
completed (`Awaits`), gets on the wire what it asked for: the bytes each span held when
the write was added, in the order the writes were added, cut where the kernel
took fewer (`wire_eq`).

`payload` is for the proofs only: what the span of each accepted request held
when it was added.
-/

namespace RingNet

open Lib

namespace EventLoop

/-- The request `id` has completed for good. -/
def hasEnded (l : EventLoop) (id : Nat) : Bool := l.ring.posted.any (·.endsFor id)

/-- The accepted request `id` is a write of `bytes` on `fd`. -/
def WritesOn (l : EventLoop) (id : Nat) (fd : Fd) (bytes : Span) : Prop :=
  ∃ a : Accepted, l.accepted[id]? = some a ∧ a.request = .write fd bytes

/-- The writes that have been asked for and have not completed. -/
def outstandingWrites (l : EventLoop) : List (Fd × Span) :=
  (List.range l.accepted.length).filterMap fun id =>
    match (l.accepted[id]? : Option Accepted) with
    | some ⟨.write fd bytes, _, _⟩ => if l.hasEnded id then none else some (fd, bytes)
    | _ => none

theorem mem_outstandingWrites {l : EventLoop} {fd : Fd} {bytes : Span} :
    (fd, bytes) ∈ l.outstandingWrites ↔ ∃ id, l.WritesOn id fd bytes ∧ l.hasEnded id = false := by
  unfold outstandingWrites WritesOn
  simp only [List.mem_filterMap, List.mem_range]
  constructor
  · rintro ⟨id, hlt, h⟩
    split at h
    · rename_i fd' bytes' s addr ha
      split at h
      · cases h
      · rename_i hend
        cases h
        exact ⟨id, ⟨_, ha, rfl⟩, by simpa using hend⟩
    · cases h
  · rintro ⟨id, ⟨⟨request, s, addr⟩, ha, rfl⟩, hend⟩
    refine ⟨id, (List.getElem?_eq_some_iff.1 ha).1, ?_⟩
    simp [ha, hend]

/-- Only `add` accepts a request. -/
theorem accepted_frame {l l' : EventLoop} {a : Action} (he : Effect l a l') (hne : ∀ r s addr, a ≠ .add r s addr) :
    l'.accepted = l.accepted := by
  have hacc := accepted_step he
  cases a with
  | add r s addr => exact absurd rfl (hne r s addr)
  | _ => exact hacc

/-- A write was there before, or is being added. -/
theorem WritesOn.step {l l' : EventLoop} {a : Action} (he : Effect l a l') {id : Nat} {fd : Fd} {bytes : Span}
    (h : l'.WritesOn id fd bytes) :
    l.WritesOn id fd bytes ∨ ∃ s addr, a = .add (.write fd bytes) s addr ∧ id = l.accepted.length := by
  obtain ⟨x, hx, hr⟩ := h
  rcases accepted_new he hx with hx | ⟨r, s, addr, rfl, hid, rfl⟩
  · exact .inl ⟨x, hx, hr⟩
  · refine .inr ⟨s, addr, ?_, hid⟩
    cases r <;> cases hr
    rfl

theorem WritesOn.lt {l : EventLoop} {id : Nat} {fd : Fd} {bytes : Span} (h : l.WritesOn id fd bytes) :
    id < l.accepted.length := by
  obtain ⟨x, hx, -⟩ := h
  exact (List.getElem?_eq_some_iff.1 hx).1

theorem hasEnded_mono {l l' : EventLoop} {a : Action} (he : Effect l a l') {id : Nat} (h : l.hasEnded id = true) :
    l'.hasEnded id = true := by
  simp only [hasEnded, List.any_eq_true] at h ⊢
  obtain ⟨c, hc, hce⟩ := h
  obtain ⟨k, hk⟩ := List.getElem?_of_mem hc
  exact ⟨c, List.mem_of_getElem? (posted_mono he hk), hce⟩

end EventLoop

structure Sending where
  loop : EventLoop
  memory : Nat → UInt8 := fun _ => 0
  wire : Fd → List UInt8 := fun _ => []
  taken : Nat → Option Nat := fun _ => none
  payload : List (List UInt8) := []

namespace Sending

/-- Besides the loop's actions: the program writes to its memory, and the
kernel takes bytes of the write that is the `i`-th entry it holds. -/
inductive Step
  | act (a : Action)
  | store (addr : Nat) (bytes : List UInt8)
  | transmit (i : Nat) (count : Nat)
  deriving DecidableEq, Repr

def new (ringEntries : Nat) : Sending := { loop := .new ringEntries 0 }

/-- What a write's span holds. -/
def spanBytes (memory : Nat → UInt8) : Request → List UInt8
  | .write _ bytes => readAt memory bytes.data bytes.size
  | _ => []

/-- The result of a write is the number of bytes that were taken, an error if none were. -/
def resultFits (p : Sending) (e : Sqe) (res : Int) : Bool :=
  match e.prep, e.owner with
  | .write .., some (.request id) =>
    match p.taken id with
    | some count => res == count
    | none => res < 0
  | _, _ => true

def step (p : Sending) : Step → Except Stop Sending
  | .act a =>
    match p.loop.step a with
    | .error e => .error e
    | .ok loop =>
      match a with
      | .add request _ _ => .ok { p with loop, payload := p.payload ++ [spanBytes p.memory request] }
      | .post i res _ =>
        match p.loop.ring.inflight[i]? with
        | none => .error .disabled
        | some e => if p.resultFits e res then .ok { p with loop } else .error .disabled
      | _ => .ok { p with loop }
  | .store addr bytes => .ok { p with memory := writeAt p.memory addr bytes }
  | .transmit i count =>
    match p.loop.ring.inflight[i]? with
    | some ⟨.write fd bytes, _, some (.request id)⟩ =>
      if p.taken id = none ∧ count ≤ bytes.size then
        .ok { p with
          wire := Function.update p.wire fd (p.wire fd ++ readAt p.memory bytes.data count)
          taken := Function.update p.taken id (some count) }
      else .error .disabled
    | _ => .error .disabled

/-- No write is started on a socket before the last one there has completed,
the bytes of a write are left alone until it has, and nothing is cancelled. -/
def Awaits (p : Sending) : Step → Prop
  | .act (.add (.write fd _) _ _) => ∀ w ∈ p.loop.outstandingWrites, w.1 ≠ fd
  | .act a => EventLoop.NotCancel p.loop a
  | .store addr bytes => ∀ w ∈ p.loop.outstandingWrites, w.2.data + w.2.size ≤ addr ∨ addr + bytes.length ≤ w.2.data
  | .transmit .. => True

instance (p : Sending) : (x : Step) → Decidable (Awaits p x)
  | .act (.add r _ _) =>
    match r with
    | .write fd _ => inferInstanceAs (Decidable (∀ w ∈ p.loop.outstandingWrites, w.1 ≠ fd))
    | .accept _ | .connect .. | .read .. | .multiShotRead .. => inferInstanceAs (Decidable True)
  | .act (.cancel ..) => inferInstanceAs (Decidable False)
  | .act (.submit ..) | .act .begin | .act .next | .act .callbackReturn | .act .checkStatus | .act (.post ..) |
    .transmit .. => inferInstanceAs (Decidable True)
  | .store addr bytes => inferInstanceAs (Decidable (∀ w ∈ p.loop.outstandingWrites,
      w.2.data + w.2.size ≤ addr ∨ addr + bytes.length ≤ w.2.data))

/-! ## What a step does -/

inductive Effect (p : Sending) : Step → Sending → Prop
  | add {r s addr l} : p.loop.step (.add r s addr) = .ok l →
      Effect p (.act (.add r s addr)) { p with loop := l, payload := p.payload ++ [spanBytes p.memory r] }
  | act {a l} : p.loop.step a = .ok l → (∀ r s addr, a ≠ .add r s addr) →
      (∀ i res flags e, a = .post i res flags → p.loop.ring.inflight[i]? = some e → p.resultFits e res = true) →
      Effect p (.act a) { p with loop := l }
  | store {addr bytes} : Effect p (.store addr bytes) { p with memory := writeAt p.memory addr bytes }
  | transmit {i count fd bytes data id} : p.loop.ring.inflight[i]? = some ⟨.write fd bytes, data, some (.request id)⟩ →
      p.taken id = none → count ≤ bytes.size →
      Effect p (.transmit i count) { p with
        wire := Function.update p.wire fd (p.wire fd ++ readAt p.memory bytes.data count)
        taken := Function.update p.taken id (some count) }

theorem step_effect {p p' : Sending} {x : Step} (h : p.step x = .ok p') : Effect p x p' := by
  cases x with
  | act a =>
    simp only [step] at h
    split at h
    · cases h
    · rename_i l hl
      cases a with
      | add r s addr =>
        cases h
        exact .add hl
      | post i res flags =>
        simp only at h
        split at h
        · cases h
        · rename_i e hin
          split at h
          · rename_i hfits
            cases h
            refine .act hl (by simp) fun i' res' flags' e' ha hin' => ?_
            cases ha
            rw [hin] at hin'
            cases hin'
            exact hfits
          · cases h
      | _ =>
        cases h
        exact .act hl (by simp) (by simp)
  | store addr bytes =>
    cases h
    exact .store
  | transmit i count =>
    simp only [step] at h
    split at h
    · rename_i hin
      split at h
      · rename_i hc
        cases h
        exact .transmit hin hc.1 hc.2
      · cases h
    · cases h

/-- Streams only get longer. -/
theorem wire_mono {p p' : Sending} {x : Step} (he : Effect p x p') (fd : Fd) : p.wire fd <+: p'.wire fd := by
  cases he with
  | @transmit i count fd' bytes data id _ _ _ =>
    dsimp only
    rw [Function.update_apply]
    split
    · rename_i heq
      rw [heq]
      exact List.prefix_append _ _
    · exact List.prefix_rfl
  | add _ | act _ _ _ | store => exact List.prefix_rfl

/-- A step of the loop, without cancels, or none. -/
theorem effect_loop {p p' : Sending} {x : Step} (hc : Awaits p x) (he : Effect p x p') :
    p'.loop = p.loop ∨ ∃ a, p.loop.step a = .ok p'.loop ∧ EventLoop.NotCancel p.loop a := by
  cases he with
  | add hl => exact .inr ⟨_, hl, trivial⟩
  | @act a l hl hne _ =>
    refine .inr ⟨a, hl, ?_⟩
    cases a with
    | add r s addr => exact absurd rfl (hne r s addr)
    | _ => exact hc
  | store | transmit _ _ _ => exact .inl rfl

theorem notCancel_loop {n : Nat} {p : Sending} (h : Run step Awaits (new n) p) :
    Run EventLoop.step EventLoop.NotCancel (.new n 0) p.loop := by
  refine Run.simulate (·.loop) (fun s x s' _ hc hs => ?_) h
  rcases effect_loop hc (step_effect hs) with hsame | ⟨a, hl, hnc⟩
  · rw [hsame]
    exact .refl
  · exact Run.refl.step hnc hl

/-! ## What has been taken of each write -/

/-- What the program asked to be put on the stream of `fd` by the request `id`:
nothing, if this is no write there. -/
def asked (p : Sending) (fd : Fd) (id : Nat) : List UInt8 :=
  match (p.loop.accepted[id]? : Option Accepted) with
  | some ⟨.write fd' _, _, _⟩ => if fd' = fd then p.payload.getD id [] else []
  | _ => []

/-- What of that has been taken. -/
def piece (p : Sending) (fd : Fd) (id : Nat) : List UInt8 := (p.asked fd id).take ((p.taken id).getD 0)

theorem asked_of_write {p : Sending} {id : Nat} {fd : Fd} {bytes : Span} (h : p.loop.WritesOn id fd bytes) :
    p.asked fd id = p.payload.getD id [] := by
  obtain ⟨⟨request, s, addr⟩, ha, rfl⟩ := h
  simp only [asked, ha, if_pos]

theorem asked_eq_nil {p : Sending} {id : Nat} {fd : Fd} (h : ∀ bytes, ¬ p.loop.WritesOn id fd bytes) :
    p.asked fd id = [] := by
  unfold asked
  split
  · rename_i fd' bytes s addr ha
    refine if_neg fun heq => h bytes ⟨_, ha, ?_⟩
    rw [heq]
  · rfl

theorem piece_eq_nil {p : Sending} {id : Nat} {fd : Fd} (h : ∀ bytes, ¬ p.loop.WritesOn id fd bytes) :
    p.piece fd id = [] := by
  rw [piece, asked_eq_nil h, List.take_nil]

/-- A write that has not begun has put nothing there. -/
theorem piece_of_none {p : Sending} {id : Nat} {fd : Fd} (h : p.taken id = none) : p.piece fd id = [] := by
  rw [piece, h, Option.getD_none, List.take_zero]

/-- The state of every write. -/
structure Kept (p : Sending) : Prop where
  payload : p.payload.length = p.loop.accepted.length
  taken : ∀ id count, p.taken id = some count → id < p.loop.accepted.length
  /-- A span that is not free again holds what it held. -/
  held : ∀ id fd bytes, p.loop.WritesOn id fd bytes → p.loop.hasEnded id = false →
    p.payload[id]? = some (readAt p.memory bytes.data bytes.size)
  /-- All writes on a socket but the last have ended. -/
  alone : ∀ i j fd b b', i < j → p.loop.WritesOn i fd b → p.loop.WritesOn j fd b' → p.loop.hasEnded i = true
  sizes : ∀ id fd bytes, p.loop.WritesOn id fd bytes → (p.payload.getD id []).length = bytes.size
  wire : ∀ fd, p.wire fd = concat (p.piece fd) p.loop.accepted.length

/-- While the kernel has an entry of a write, this has not ended. -/
theorem transmit_write {n : Nat} {l : EventLoop} (h : Run EventLoop.step EventLoop.NotCancel (.new n 0) l) {i : Nat}
    {fd : Fd} {bytes : Span} {data id : Nat}
    (hin : l.ring.inflight[i]? = some ⟨.write fd bytes, data, some (.request id)⟩) :
    l.WritesOn id fd bytes ∧ l.hasEnded id = false := by
  have hi := EventLoop.intact_run (h.mono fun _ _ => EventLoop.NotCancel.clean)
  obtain ⟨id', a, ho, ha, hp⟩ := hi.entry (EventLoop.cancels_zero h) hin
  obtain rfl : id = id' := by simpa using ho
  refine ⟨⟨a, ha, ?_⟩, ?_⟩
  · obtain ⟨request, s, addr⟩ := a
    cases request <;> cases hp
    rfl
  · have hne := (EventLoop.reach_unique h.any).not_ended (List.mem_of_getElem? hin) rfl
    simpa [EventLoop.hasEnded] using hne

/-- Two states in which a request and what is known of it are the same have the same piece of it. -/
theorem piece_congr {p p' : Sending} {fd : Fd} {id : Nat} (hacc : p'.loop.accepted[id]? = p.loop.accepted[id]?)
    (hpay : p'.payload[id]? = p.payload[id]?) (ht : p'.taken id = p.taken id) : p'.piece fd id = p.piece fd id := by
  simp only [piece, asked, hacc, List.getD_eq_getElem?_getD, hpay, ht]

section Steps
variable {p : Sending} (h : Kept p)
include h

theorem kept_add {r : Request} {s : Option SubscriberId} {addr : Nat} {l : EventLoop}
    (hc : Awaits p (.act (.add r s addr))) (hl : p.loop.step (.add r s addr) = .ok l) :
    Kept { p with loop := l, payload := p.payload ++ [spanBytes p.memory r] } := by
  have he := EventLoop.step_effect hl
  have hacc : l.accepted = p.loop.accepted ++ [⟨EventLoop.stored r, s, addr⟩] := EventLoop.accepted_step he
  have hpost : l.ring.posted = p.loop.ring.posted := EventLoop.posted_step he
  have hend : ∀ id, l.hasEnded id = p.loop.hasEnded id := fun id => by simp only [EventLoop.hasEnded, hpost]
  refine ⟨?_, ?_, ?_, ?_, ?_, fun fd => ?_⟩
  · dsimp only
    rw [hacc, List.length_append, List.length_append, h.payload]
    rfl
  · intro id count ht
    dsimp only
    rw [hacc, List.length_append]
    exact Nat.lt_of_lt_of_le (h.taken id count ht) (Nat.le_add_right _ _)
  · intro id fd bytes hw he'
    dsimp only at hw he' ⊢
    rw [hend] at he'
    rcases hw.step he with hw | ⟨s', addr', hx, rfl⟩
    · rw [List.getElem?_append_left (h.payload ▸ hw.lt)]
      exact h.held id fd bytes hw he'
    · cases hx
      rw [← h.payload, List.getElem?_concat_length]
      rfl
  · intro i j fd b b' hij hi hj
    dsimp only at hi hj ⊢
    rw [hend]
    rcases hi.step he with hi | ⟨s', addr', hx, rfl⟩
    · rcases hj.step he with hj | ⟨s', addr', hx, rfl⟩
      · exact h.alone i j fd b b' hij hi hj
      · -- the new one was added when no other was outstanding
        cases hx
        by_contra hne
        exact hc (fd, b) (EventLoop.mem_outstandingWrites.2 ⟨i, hi, by simpa using hne⟩) rfl
    · have hlt := hj.lt
      rw [hacc, List.length_append, List.length_singleton] at hlt
      omega
  · intro id fd bytes hw
    dsimp only at hw ⊢
    rw [List.getD_eq_getElem?_getD]
    rcases hw.step he with hw | ⟨s', addr', hx, rfl⟩
    · rw [List.getElem?_append_left (h.payload ▸ hw.lt), ← List.getD_eq_getElem?_getD]
      exact h.sizes id fd bytes hw
    · cases hx
      rw [← h.payload, List.getElem?_concat_length]
      exact readAt_length _ _ _
  · dsimp only
    rw [hacc, List.length_append, List.length_singleton, concat_succ, piece_of_none, List.append_nil, h.wire]
    · refine (concat_congr fun j hj => ?_).symm
      refine piece_congr ?_ ?_ rfl
      · dsimp only
        rw [hacc, List.getElem?_append_left hj]
      · exact List.getElem?_append_left (h.payload ▸ hj)
    · cases ht : p.taken p.loop.accepted.length with
      | none => rfl
      | some count => exact absurd (h.taken _ _ ht) (Nat.lt_irrefl _)

theorem kept_act {a : Action} {l : EventLoop} (hl : p.loop.step a = .ok l) (hne : ∀ r s addr, a ≠ .add r s addr) :
    Kept { p with loop := l } := by
  have he := EventLoop.step_effect hl
  have hacc : l.accepted = p.loop.accepted := EventLoop.accepted_frame he hne
  have hw : ∀ {id fd bytes}, l.WritesOn id fd bytes → p.loop.WritesOn id fd bytes := by
    intro id fd bytes ⟨x, hx, hr⟩
    exact ⟨x, hacc ▸ hx, hr⟩
  have hend : ∀ id, l.hasEnded id = false → p.loop.hasEnded id = false := by
    intro id hf
    by_contra ht
    rw [EventLoop.hasEnded_mono he (by simpa using ht)] at hf
    cases hf
  refine ⟨hacc ▸ h.payload, hacc ▸ h.taken, fun id fd bytes hx hf => h.held id fd bytes (hw hx) (hend id hf),
    fun i j fd b b' hij hi hj => EventLoop.hasEnded_mono he (h.alone i j fd b b' hij (hw hi) (hw hj)),
    fun id fd bytes hx => h.sizes id fd bytes (hw hx), fun fd => ?_⟩
  dsimp only
  rw [h.wire, hacc]
  refine (concat_congr fun j _ => ?_).symm
  exact piece_congr (congrArg (·[j]?) hacc) rfl rfl

theorem kept_store {addr : Nat} {bytes : List UInt8} (hc : Awaits p (.store addr bytes)) :
    Kept { p with memory := writeAt p.memory addr bytes } := by
  refine ⟨h.payload, h.taken, fun id fd span hw hf => ?_, h.alone, h.sizes, h.wire⟩
  have hst : Stored p.memory span.data (readAt p.memory span.data span.size) := by
    rw [Stored, readAt_length]
  have hd := hc (fd, span) (EventLoop.mem_outstandingWrites.2 ⟨id, hw, hf⟩)
  have hst' : Stored (writeAt p.memory addr bytes) span.data _ := hst.writeAt (by rwa [readAt_length])
  rw [Stored, readAt_length] at hst'
  rw [h.held id fd span hw hf, ← hst']

theorem kept_transmit {fd : Fd} {bytes : Span} {id count : Nat} (hw : p.loop.WritesOn id fd bytes)
    (hf : p.loop.hasEnded id = false) (ht : p.taken id = none) (hcount : count ≤ bytes.size) :
    Kept { p with
      wire := Function.update p.wire fd (p.wire fd ++ readAt p.memory bytes.data count)
      taken := Function.update p.taken id (some count) } := by
  refine ⟨h.payload, fun i k hk => ?_, h.held, h.alone, h.sizes, fun fd' => ?_⟩
  · dsimp only at hk
    rw [Function.update_apply] at hk
    split at hk
    · rename_i hi
      exact hi ▸ hw.lt
    · exact h.taken i k hk
  have hsame : ∀ j, j ≠ id → piece { p with
      wire := Function.update p.wire fd (p.wire fd ++ readAt p.memory bytes.data count)
      taken := Function.update p.taken id (some count) } fd' j = p.piece fd' j := by
    intro j hj
    exact piece_congr rfl rfl (Function.update_of_ne hj _ _)
  dsimp only
  by_cases hfd : fd' = fd
  · subst hfd
    rw [Function.update_self, concat_grow hw.lt hsame, ← h.wire]
    · refine congrArg (p.wire fd' ++ ·) ?_
      have hasked : p.asked fd' id = readAt p.memory bytes.data bytes.size := by
        rw [asked_of_write hw, List.getD_eq_getElem?_getD, h.held id fd' bytes hw hf, Option.getD_some]
      simp only [piece, Function.update_self]
      exact (readAt_take _ _ hcount).symm.trans (congrArg (List.take count) hasked.symm)
    · intro j hij _
      rcases Nat.lt_or_ge id j with hlt | hge
      · -- no write on this socket came after one that has not ended
        refine piece_eq_nil fun b hb => ?_
        rw [h.alone id j fd' bytes b hlt hw hb] at hf
        cases hf
      · obtain rfl : id = j := by omega
        exact piece_of_none ht
  · rw [Function.update_of_ne hfd, h.wire]
    refine (concat_congr fun j hj => ?_).symm
    by_cases hj' : j = id
    · -- it is a write on the other socket
      subst hj'
      obtain ⟨x, hx, hr⟩ := hw
      rw [piece_eq_nil (p := p), piece_eq_nil]
      all_goals
        rintro b ⟨x', hx', hr'⟩
        rw [hx] at hx'
        cases hx'
        rw [hr] at hr'
        cases hr'
        exact hfd rfl
    · exact hsame j hj'

end Steps

theorem kept_run {n : Nat} {p : Sending} (h : Run step Awaits (new n) p) : Kept p := by
  refine Run.inv_of (fun p => Run EventLoop.step EventLoop.NotCancel (.new n 0) p.loop) Kept (fun _ hr => notCancel_loop hr)
    ?_ (fun s x s' hr hi hc hs => ?_) h
  · refine ⟨rfl, by simp [new], ?_, ?_, ?_, fun _ => rfl⟩
    · rintro id fd bytes ⟨x, hx, -⟩
      simp [new] at hx
    · rintro i j fd b b' _ ⟨x, hx, -⟩
      simp [new] at hx
    · rintro id fd bytes ⟨x, hx, -⟩
      simp [new] at hx
  · cases step_effect hs with
    | add hl => exact kept_add hi hc hl
    | act hl hne _ => exact kept_act hi hl hne
    | store => exact kept_store hi hc
    | transmit hin ht hcount =>
      obtain ⟨hw, hf⟩ := transmit_write hr hin
      exact kept_transmit hi hw hf ht hcount

/-- In every run that awaits its writes, for any number of sockets and any
order in which the kernel gets to them: on each socket's stream are the bytes
its writes held when they were added, in the order they were added, of each as
many as the kernel took. -/
theorem wire_eq {n : Nat} {p : Sending} (h : Run step Awaits (new n) p) (fd : Fd) :
    p.wire fd = concat (p.piece fd) p.loop.accepted.length := (kept_run h).wire fd

/-- Two sockets; the second write's bytes are put where the first's were, once it has completed short. -/
def twoWrites : List Step :=
  [.store 4096 [1, 2, 3], .act (.add (.write 5 ⟨4096, 3⟩) (some 7) 100), .act (.add (.write 6 ⟨4096, 2⟩) (some 8) 200),
    .act (.submit 100 { taken := 2, ret := 2 }), .transmit 1 2, .transmit 0 2, .act (.post 1 2 0), .act (.post 0 2 0),
    .store 4096 [4], .act (.add (.write 5 ⟨4096, 2⟩) (some 7) 300), .act (.submit 100 { taken := 1, ret := 1 }),
    .transmit 0 2]

theorem wire_eq_two :
    ∃ p, Run step Awaits (new 4) p ∧ p.wire 5 = [1, 2, 4, 2] ∧ concat (p.piece 5) p.loop.accepted.length = [1, 2, 4, 2] := by
  obtain ⟨p, hr, hp⟩ := exists_run step (fun p x => decide (Awaits p x)) (fun _ _ => of_decide_eq_true) (new 4) twoWrites
    (fun p => p.wire 5 == [1, 2, 4, 2]) (by decide +kernel)
  exact ⟨p, hr, beq_iff_eq.1 hp, (wire_eq hr 5) ▸ beq_iff_eq.1 hp⟩

/-! ## Writes that are taken whole -/

/-- The result of a write is the whole size. -/
def tookAll (e : Sqe) (res : Int) : Bool :=
  match e.prep with
  | .write _ bytes => res == bytes.size
  | _ => true

/-- As `Awaits`, and no write is cut short. -/
def Whole (p : Sending) : Step → Prop
  | .act (.post i res _) => ∀ e ∈ p.loop.ring.inflight[i]?, tookAll e res = true
  | x => Awaits p x

instance (p : Sending) : (x : Step) → Decidable (Whole p x)
  | .act (.post i res _) => inferInstanceAs (Decidable (∀ e ∈ p.loop.ring.inflight[i]?, tookAll e res = true))
  | .act (.add r s addr) => inferInstanceAs (Decidable (Awaits p (.act (.add r s addr))))
  | .act (.cancel fd taken) => inferInstanceAs (Decidable (Awaits p (.act (.cancel fd taken))))
  | .store addr bytes => inferInstanceAs (Decidable (Awaits p (.store addr bytes)))
  | .act (.submit ..) | .act .begin | .act .next | .act .callbackReturn | .act .checkStatus | .transmit .. =>
    inferInstanceAs (Decidable True)

theorem Whole.awaits {p : Sending} {x : Step} (h : Whole p x) : Awaits p x := by
  cases x with
  | act a =>
    cases a with
    | post i res flags => trivial
    | _ => exact h
  | _ => exact h

/-- What has ended has been taken whole. -/
def TookAll (p : Sending) : Prop :=
  ∀ id fd bytes, p.loop.WritesOn id fd bytes → p.loop.hasEnded id = true → p.taken id = some bytes.size

/-- A completion with the whole size is one of a write that was taken whole. -/
theorem taken_of_result {p : Sending} {e : Sqe} {res : Int} {id : Nat} {fd : Fd} {bytes : Span}
    (hp : e.prep = .write fd bytes) (ho : e.owner = some (.request id)) (hres : p.resultFits e res = true)
    (hall : tookAll e res = true) : p.taken id = some bytes.size := by
  simp only [resultFits, tookAll, hp, ho, beq_iff_eq] at hres hall
  split at hres
  · rename_i count ht
    rw [beq_iff_eq, hall, Int.natCast_inj] at hres
    rw [ht, hres]
  · simp only [hall, decide_eq_true_eq] at hres
    omega

theorem tookAll_step {n : Nat} {p p' : Sending} {x : Step} (hr : Run step Awaits (new n) p) (h : TookAll p)
    (hc : Whole p x) (he : Effect p x p') : TookAll p' := by
  have hloop := notCancel_loop hr
  cases he with
  | @add r s addr l hl =>
    have he := EventLoop.step_effect hl
    have hpost : l.ring.posted = p.loop.ring.posted := EventLoop.posted_step he
    intro id fd bytes hw hend
    dsimp only [EventLoop.hasEnded] at hw hend ⊢
    rw [hpost] at hend
    rcases hw.step he with hw | ⟨s', addr', -, rfl⟩
    · exact h id fd bytes hw hend
    · -- a request that is only being added has no completion
      obtain ⟨c, hc, hce⟩ := List.any_eq_true.1 hend
      obtain ⟨a, ha, -⟩ := (EventLoop.reach_traced hloop.any).completions c hc _ (Cqe.endsFor_owner hce)
      exact absurd (List.getElem?_eq_some_iff.1 ha).1 (Nat.lt_irrefl _)
  | @act a l hl hne hres =>
    have he := EventLoop.step_effect hl
    intro id fd bytes hw hend
    dsimp only at hw hend ⊢
    have hw : p.loop.WritesOn id fd bytes :=
      (hw.step he).resolve_right fun ⟨s, addr, ha, _⟩ => hne _ s addr ha
    have hpost := EventLoop.posted_step he
    cases a with
    | add r s addr => exact absurd rfl (hne r s addr)
    | post i res flags =>
      obtain ⟨e, hin, hpost⟩ := hpost
      rw [EventLoop.hasEnded, hpost, List.any_append, Bool.or_eq_true] at hend
      rcases hend with hend | hend
      · exact h id fd bytes hw hend
      · -- the completion just posted is the write's own
        have ho : e.owner = some (.request id) := Cqe.endsFor_owner (by simpa using hend)
        have hi := EventLoop.intact_run (hloop.mono fun _ _ => EventLoop.NotCancel.clean)
        obtain ⟨id', a, ho', ha, hp⟩ := hi.entry (EventLoop.cancels_zero hloop) hin
        obtain rfl : id = id' := by simpa [ho] using ho'
        obtain ⟨a', ha', hr'⟩ := hw
        obtain rfl : a = a' := Option.some.inj (ha.symm.trans ha')
        rw [hr'] at hp
        exact taken_of_result hp ho (hres i res flags e rfl hin) (hc e hin)
    | _ =>
      dsimp only at hpost
      rw [EventLoop.hasEnded, hpost] at hend
      exact h id fd bytes hw hend
  | store => exact h
  | transmit hin ht hcount =>
    intro id fd bytes hw hend
    dsimp only at hw hend ⊢
    rw [Function.update_apply]
    split
    · -- what is being taken has not ended
      rename_i heq
      rw [heq, (transmit_write hloop hin).2] at hend
      cases hend
    · exact h id fd bytes hw hend

theorem tookAll_run {n : Nat} {p : Sending} (h : Run step Whole (new n) p) : TookAll p := by
  refine Run.inv_of (fun p => Run step Awaits (new n) p) TookAll ?_ ?_ ?_ h
  · exact fun _ hr => hr.mono fun _ _ => Whole.awaits
  · rintro id fd bytes ⟨x, hx, -⟩
    simp [new] at hx
  · exact fun _ _ _ hr hi hc hs => tookAll_step hr hi hc (step_effect hs)

theorem TookAll.piece {p : Sending} (h : TookAll p) (hk : Kept p) {id : Nat} {fd : Fd} {bytes : Span}
    (hw : p.loop.WritesOn id fd bytes) (hend : p.loop.hasEnded id = true) : p.piece fd id = p.asked fd id := by
  rw [Sending.piece, h id fd bytes hw hend, Option.getD_some, ← hk.sizes id fd bytes hw, ← asked_of_write hw, List.take_length]

/-- What is on the stream is the beginning of what was asked for, and all of it
when no write there is outstanding. -/
theorem wire_prefix {n : Nat} {p : Sending} (h : Run step Whole (new n) p) (fd : Fd) :
    p.wire fd <+: concat (p.asked fd) p.loop.accepted.length ∧
      ((∀ w ∈ p.loop.outstandingWrites, w.1 ≠ fd) → p.wire fd = concat (p.asked fd) p.loop.accepted.length) := by
  have hk := kept_run (h.mono fun _ _ => Whole.awaits)
  have ht := tookAll_run h
  rw [hk.wire]
  constructor
  · refine concat_prefix (fun j _ => List.take_prefix _ _) fun i j hij _ hne => piece_eq_nil fun b hb => hne ?_
    -- with a write after it, the write `i` has ended
    by_cases hw : ∃ b', p.loop.WritesOn i fd b'
    · obtain ⟨b', hw⟩ := hw
      exact ht.piece hk hw (hk.alone i j fd b' b hij hw hb)
    · rw [piece_eq_nil (not_exists.1 hw), asked_eq_nil (not_exists.1 hw)]
  · intro hout
    refine concat_congr fun j _ => ?_
    by_cases hw : ∃ b', p.loop.WritesOn j fd b'
    · obtain ⟨b', hw⟩ := hw
      refine ht.piece hk hw ?_
      by_contra hne
      exact hout (fd, b') (EventLoop.mem_outstandingWrites.2 ⟨j, hw, by simpa using hne⟩) rfl
    · rw [piece_eq_nil (not_exists.1 hw), asked_eq_nil (not_exists.1 hw)]

end Sending

end RingNet
