import RingNet.Lib.Counter
import RingNet.Entries
import RingNet.Order
import RingNet.Delivery
/-!
# The rings in memory

The loop run against the rings as liburing and the kernel share them. Heads
and tails are 32-bit counters that wrap; entries live in a power of two of
slots that are filled field by field over what they held before
(`Entries.lean`); a completion is not copied out of its slot, so what
`forEachCompletion` hands to the handler, and `release` looks at after the
handler has returned, is read from the queue each time, while the kernel goes
on posting.

A step of `Rings` is a step of the loop, with the same step taken on the rings
in memory: these decide for themselves whether a slot is free, where an entry
goes and when the iteration ends. They always decide as the loop does, however
long the run is (`Agrees`).

The kernel posts a completion only when the completion queue has a free slot;
it keeps others back. `received`, `called` and `released` are for the proofs
only: every entry the kernel took, and what was read before each handler call
and after it.
-/

namespace RingNet

open Lib

structure RawCqe where
  userData : UInt64 := 0
  res : Int := 0
  flags : UInt32 := 0
  deriving DecidableEq, Repr

/-- A completion as it is in the queue. -/
def Cqe.raw (c : Cqe) : RawCqe := ⟨UInt64.ofNat c.userData, c.res, c.flags⟩

/-- `struct io_uring_sq`, and the entries the kernel has taken from it. -/
structure RawSq where
  ringEntries : UInt32
  sqes : Nat → RawSqe := fun _ => {}
  khead : UInt32 := 0
  ktail : UInt32 := 0
  sqeHead : UInt32 := 0
  sqeTail : UInt32 := 0
  inflight : List RawSqe := []
  received : List RawSqe := []

namespace RawSq

/-- `_io_uring_get_sqe`. -/
def getSqe (r : RawSq) : Option (Nat × RawSq) :=
  let next := r.sqeTail + 1
  if next - r.khead ≤ r.ringEntries then
    let slot := (r.sqeTail &&& (r.ringEntries - 1)).toNat
    some (slot, { r with sqeTail := next, sqes := Function.update r.sqes slot (r.sqes slot).initializeSqe })
  else none

def writeSqe (r : RawSq) (slot : Nat) (f : RawSqe → RawSqe) : RawSq :=
  { r with sqes := Function.update r.sqes slot (f (r.sqes slot)) }

/-- `__io_uring_flush_sq`. -/
def flush (r : RawSq) : RawSq :=
  if r.sqeHead ≠ r.sqeTail then { r with sqeHead := r.sqeTail, ktail := r.sqeTail } else r

/-- The kernel takes `taken` of the entries it can see, or all there are. -/
def enter (r : RawSq) (taken : Nat) : RawSq :=
  let count := min taken (r.ktail - r.khead).toNat
  let entries := (List.range count).map fun i =>
    r.sqes ((r.khead + UInt32.ofNat i) &&& (r.ringEntries - 1)).toNat
  { r with
    khead := r.khead + UInt32.ofNat count
    inflight := r.inflight ++ entries
    received := r.received ++ entries }

/-- The entries prepared so far, oldest first: those the kernel took, and those in the slots it has yet to look at. -/
def entries (r : RawSq) : List RawSqe :=
  r.received ++ (List.range (r.sqeTail - r.khead).toNat).map fun i =>
    r.sqes ((r.khead + UInt32.ofNat i) &&& (r.ringEntries - 1)).toNat

/-- `io_uring_submit` and its waiting variants. -/
def submit (r : RawSq) (taken : Nat) : RawSq := r.flush.enter taken

def getNewSubmissionQueueEntry (r : RawSq) (takes : List Nat) : Option Nat × RawSq × List Nat :=
  match r.getSqe with
  | some (slot, r) => (some slot, r, takes)
  | none =>
    let r := r.submit (takes.headD 0)
    match r.getSqe with
    | some (slot, r) => (some slot, r, takes.tail)
    | none => (none, r, takes.tail)

def cancel (r : RawSq) (fd : Fd) (takes : List Nat) : RawSq :=
  match r.getNewSubmissionQueueEntry takes with
  | (none, r, _) => r
  | (some slot, r, _) => r.writeSqe slot (·.cancel fd)

/-- The loop of `preparePendingRequests`; the requests are read through their pointers. -/
def prepareEach (pool : List Block) : List Pending → RawSq → List Nat → Except Fault RawSq
  | [], r, _ => .ok r
  | x :: xs, r, takes =>
    match r.getNewSubmissionQueueEntry takes with
    | (none, r, takes) => prepareEach pool xs r takes
    | (some slot, r, takes) =>
      match RequestPool.find pool x.ptr with
      | none => .error .danglingHeader
      | some b => prepareEach pool xs (r.writeSqe slot (·.prepare x.ptr b.request)) takes

/-- `SubmissionQueue::submit`. -/
def submitPending (r : RawSq) (pool : List Block) (pending : List Pending) (reply : SubmitReply) : Except Fault RawSq :=
  match prepareEach pool pending r reply.takes with
  | .error f => .error f
  | .ok r => .ok (if pending.length = 0 then r else r.submit reply.taken)

end RawSq

/-- `struct io_uring_cq`. -/
structure RawCq where
  ringEntries : UInt32
  cqes : Nat → RawCqe := fun _ => {}
  khead : UInt32 := 0
  ktail : UInt32 := 0

namespace RawCq

/-- What a completion pointer for `head` points to. -/
def entry (q : RawCq) (head : UInt32) : RawCqe := q.cqes (head &&& (q.ringEntries - 1)).toNat

/-- `io_uring_cq_advance`. -/
def advance (q : RawCq) (nr : UInt32) : RawCq := { q with khead := q.khead + nr }

/-- Advancing by nothing is no advance. -/
theorem advance_skip (q : RawCq) (nr : UInt32) : (if nr ≠ 0 then q.advance nr else q) = q.advance nr := by
  split
  · rfl
  · rename_i h
    rw [not_not.1 h, advance, UInt32.add_zero]

/-- The kernel posts a completion if there is a free slot. -/
def post (q : RawCq) (c : RawCqe) : Option RawCq :=
  if q.ktail - q.khead < q.ringEntries then
    some { q with
      cqes := Function.update q.cqes (q.ktail &&& (q.ringEntries - 1)).toNat c
      ktail := q.ktail + 1 }
  else none

end RawCq

/-- The loop and the rings; `head` and `processed` are the local variables of `forEachCompletion`. -/
structure Rings where
  loop : EventLoop
  sq : RawSq
  cq : RawCq
  head : UInt32 := 0
  processed : UInt32 := 0
  called : List RawCqe := []
  released : List RawCqe := []

namespace Rings

/-- A loop with `2 ^ k` submission slots; the kernel makes twice as many for completions. -/
def new (k : Nat) : Rings where
  loop := .new (2 ^ k) 0
  sq := { ringEntries := UInt32.ofNat (2 ^ k) }
  cq := { ringEntries := UInt32.ofNat (2 ^ (k + 1)) }

def step (p : Rings) (a : Action) : Except Stop Rings :=
  match p.loop.step a with
  | .error e => .error e
  | .ok loop =>
    match a with
    | .add .. | .checkStatus => .ok { p with loop }
    | .cancel fd taken => .ok { p with loop, sq := p.sq.cancel fd [taken] }
    | .submit _ reply =>
      match p.sq.submitPending p.loop.pool p.loop.pending reply with
      | .error f => .error (.fault f)
      | .ok sq => .ok { p with loop, sq }
    | .begin => .ok { p with loop, head := p.cq.khead, processed := 0 }
    | .next =>
      if p.head = p.cq.ktail then
        .ok { p with loop, cq := if p.processed ≠ 0 then p.cq.advance p.processed else p.cq }
      else .ok { p with loop, processed := p.processed + 1, called := p.called ++ [p.cq.entry p.head] }
    | .callbackReturn => .ok { p with loop, head := p.head + 1, released := p.released ++ [p.cq.entry p.head] }
    | .post i res flags =>
      match p.sq.inflight[i]? with
      | none => .error .disabled
      | some e =>
        match p.cq.post ⟨e.userData, res, flags⟩ with
        | none => .error .disabled
        | some cq =>
          let more := flags &&& IORING_CQE_F_MORE != 0
          .ok { p with
            loop, cq
            sq := { p.sq with inflight := if more then p.sq.inflight else p.sq.inflight.eraseIdx i } }

end Rings

/-! ## Submission -/

/-- The submission ring in memory is the one of the model. -/
structure SqAgrees (k : Nat) (u : IoUring) (r : RawSq) : Prop where
  size : u.ringEntries = 2 ^ k
  ringEntries : r.ringEntries = UInt32.ofNat (2 ^ k)
  head : Counts r.khead u.sqHead
  tail : Counts r.sqeTail u.sqTail
  flushed : r.sqeHead = r.ktail
  slots : ∀ j, j < 2 ^ k → Says (r.sqes j) (u.sqes j)
  inflight : List.Forall₂ Says r.inflight u.inflight
  received : List.Forall₂ Says r.received u.submitted

namespace SqAgrees

variable {k : Nat} (hk : k < 32) {u : IoUring} {r : RawSq} (h : SqAgrees k u r)
include hk h

/-- The slot of a counter. -/
theorem slot {c : UInt32} {n : Nat} (hc : Counts c n) : (c &&& (r.ringEntries - 1)).toNat = n % u.ringEntries := by
  rw [h.ringEntries, h.size]
  exact hc.slot hk

/-- Both find the same free slot, or neither finds one. What is then written
agrees if it does for any two entries with the same data. -/
theorem getSqe :
    (u.getSqe = none ∧ r.getSqe = none) ∨
      ∃ slot u' r', u.getSqe = some (slot, u') ∧ r.getSqe = some (slot, r') ∧
        ∀ f g, (∀ x e, x.userData = UInt64.ofNat e.userData → Says (g (RawSqe.initializeSqe x)) (f e)) →
          SqAgrees k (u'.writeSqe slot f) (r'.writeSqe slot g) := by
  have hpow : 2 ^ k ≤ 2 ^ 31 := Nat.pow_le_pow_right (by omega) (by omega)
  have hle := u.head_le_tail
  have hfits := u.tail_fits
  have hroom : r.sqeTail + 1 - r.khead ≤ r.ringEntries ↔ u.sqTail + 1 - u.sqHead ≤ u.ringEntries := by
    rw [UInt32.le_iff_toNat_le, h.head.distance h.tail.succ (by omega) (by rw [h.size] at hfits; omega), h.ringEntries,
      UInt32.toNat_ofNat', Nat.mod_eq_of_lt (by omega), h.size]
  by_cases hfree : u.sqTail + 1 - u.sqHead ≤ u.ringEntries
  · right
    have hr : r.getSqe = some (u.sqTail % u.ringEntries, { r with
        sqeTail := r.sqeTail + 1
        sqes := Function.update r.sqes (u.sqTail % u.ringEntries)
          (r.sqes (u.sqTail % u.ringEntries)).initializeSqe }) := by
      simp only [RawSq.getSqe, if_pos (hroom.2 hfree), h.slot hk h.tail]
    refine ⟨_, _, _, dif_pos hfree, hr, fun f g hfg => ?_⟩
    refine ⟨h.size, h.ringEntries, h.head, h.tail.succ, h.flushed, fun j hj => ?_, h.inflight, h.received⟩
    simp only [RawSq.writeSqe, IoUring.writeSqe, Function.update_apply]
    split
    · rename_i heq
      subst heq
      rw [if_pos trivial]
      exact hfg _ _ (h.slots _ hj).userData
    · exact h.slots j hj
  · exact .inl ⟨dif_neg hfree, if_neg (mt hroom.1 hfree)⟩

omit hk in
/-- After a flush the kernel sees every entry. -/
theorem flush : r.flush = { r with sqeHead := r.sqeTail, ktail := r.sqeTail } := by
  have hf := h.flushed
  unfold RawSq.flush
  split
  · rfl
  · rename_i heq
    have heq := not_not.1 heq
    cases r
    dsimp only at hf heq ⊢
    rw [← heq, hf]

/-- The slots from the head on say what those of the model say. -/
theorem waiting (count : Nat) :
    List.Forall₂ Says ((List.range count).map fun i => r.sqes ((r.khead + UInt32.ofNat i) &&& (r.ringEntries - 1)).toNat)
      (window u.sqes u.ringEntries u.sqHead count) := by
  rw [window, List.forall₂_map_left_iff, List.forall₂_map_right_iff, List.forall₂_same]
  intro i _
  rw [h.slot hk (h.head.add i)]
  exact h.slots _ (h.size ▸ Nat.mod_lt _ (by rw [h.size]; exact Nat.two_pow_pos k))

theorem count_waiting : (r.sqeTail - r.khead).toNat = u.sqTail - u.sqHead := by
  have hpow : 2 ^ k ≤ 2 ^ 31 := Nat.pow_le_pow_right (by omega) (by omega)
  have hfits := u.tail_fits
  exact h.head.distance h.tail u.head_le_tail (by rw [h.size] at hfits; omega)

/-- All entries say what those of the model say. -/
theorem entries : List.Forall₂ Says r.entries (u.submitted ++ u.unsubmitted) := by
  unfold RawSq.entries
  rw [h.count_waiting hk]
  exact List.rel_append h.received (h.waiting hk _)

theorem submit (taken : Nat) : SqAgrees k (u.submit taken) (r.submit taken) := by
  have hentries : List.Forall₂ Says ((List.range (min taken (u.sqTail - u.sqHead))).map fun i =>
      r.sqes ((r.khead + UInt32.ofNat i) &&& (r.ringEntries - 1)).toNat) (u.unsubmitted.take taken) := by
    rw [IoUring.unsubmitted, window, ← List.map_take, List.take_range]
    exact h.waiting hk _
  unfold RawSq.submit RawSq.enter
  rw [h.flush]
  dsimp only
  rw [h.count_waiting hk]
  exact ⟨h.size, h.ringEntries, h.head.add _, h.tail, rfl, h.slots, List.rel_append h.inflight hentries,
    List.rel_append h.received hentries⟩

/-- A slot is found by both or by neither, made room for or not. -/
theorem getNew (takes : List Nat) :
    (∃ u' r' takes', getNewSubmissionQueueEntry u takes = (none, u', takes') ∧
        r.getNewSubmissionQueueEntry takes = (none, r', takes') ∧ SqAgrees k u' r') ∨
      ∃ slot u' r' takes', getNewSubmissionQueueEntry u takes = (some slot, u', takes') ∧
        r.getNewSubmissionQueueEntry takes = (some slot, r', takes') ∧
        ∀ f g, (∀ x e, x.userData = UInt64.ofNat e.userData → Says (g (RawSqe.initializeSqe x)) (f e)) →
          SqAgrees k (u'.writeSqe slot f) (r'.writeSqe slot g) := by
  unfold getNewSubmissionQueueEntry RawSq.getNewSubmissionQueueEntry
  rcases h.getSqe hk with ⟨hu, hr⟩ | ⟨slot, u', r', hu, hr, hw⟩
  · have h' := h.submit hk (takes.headD 0)
    rw [hu, hr]
    rcases h'.getSqe hk with ⟨hu', hr'⟩ | ⟨slot, u', r', hu', hr', hw⟩
    · exact .inl ⟨_, _, takes.tail, by simp only [hu'], by simp only [hr'], h'⟩
    · exact .inr ⟨slot, u', r', takes.tail, by simp only [hu'], by simp only [hr'], hw⟩
  · exact .inr ⟨slot, u', r', takes, by simp only [hu], by simp only [hr], hw⟩

end SqAgrees

theorem forall₂_eraseIdx {α β : Type} {R : α → β → Prop} {xs : List α} {ys : List β} (h : List.Forall₂ R xs ys) (i : Nat) :
    List.Forall₂ R (xs.eraseIdx i) (ys.eraseIdx i) := by
  induction h generalizing i with
  | nil => simp
  | cons hxy hrest ih =>
    cases i with
    | zero => exact hrest
    | succ i => exact .cons hxy (ih i)

theorem SqAgrees.post {k : Nat} {u : IoUring} {r : RawSq} (h : SqAgrees k u r) (i : Nat) (e : Sqe) (res : Int)
    (flags : UInt32) : SqAgrees k (u.post i e res flags)
      { r with inflight := if flags &&& IORING_CQE_F_MORE != 0 then r.inflight else r.inflight.eraseIdx i } := by
  refine ⟨h.size, h.ringEntries, h.head, h.tail, h.flushed, h.slots, ?_, h.received⟩
  show List.Forall₂ Says (if Cqe.hasMore ⟨e.userData, res, flags, e.owner⟩ then r.inflight else r.inflight.eraseIdx i)
    (if Cqe.hasMore ⟨e.userData, res, flags, e.owner⟩ then u.inflight else u.inflight.eraseIdx i)
  by_cases hm : Cqe.hasMore ⟨e.userData, res, flags, e.owner⟩ = true
  · rw [if_pos hm, if_pos hm]
    exact h.inflight
  · rw [if_neg hm, if_neg hm]
    exact forall₂_eraseIdx h.inflight i

theorem cancel_agrees {k : Nat} (hk : k < 32) {l : EventLoop} {r : RawSq} (h : SqAgrees k l.ring r) (fd : Fd)
    (taken : Nat) : SqAgrees k (l.cancel fd taken).ring (r.cancel fd [taken]) := by
  unfold EventLoop.cancel SubmissionQueue.cancel RawSq.cancel
  rcases h.getNew hk [taken] with ⟨u', r', takes', hu, hr, h'⟩ | ⟨slot, u', r', takes', hu, hr, hw⟩
  · rw [hu, hr]
    exact h'
  · rw [hu, hr]
    refine hw (fun e => { e with prep := .cancelFd fd, owner := some (.cancel l.submissionQueue.cancels) })
      (·.cancel fd) fun x e hx => ?_
    obtain ⟨hread, hdata⟩ := x.cancel_says fd
    exact ⟨hread, hdata.trans hx⟩

theorem prepareEach_agrees {k : Nat} (hk : k < 32) {xs : List Pending} {n n' : Nat} {q q' : SubmissionQueue} {r : RawSq}
    {takes takes' : List Nat} (h : SqAgrees k q.ring r)
    (hq : SubmissionQueue.prepareEach xs n q takes = .ok (n', q', takes')) :
    ∃ r', RawSq.prepareEach q.requestPool xs r takes = .ok r' ∧ SqAgrees k q'.ring r' := by
  induction xs generalizing n q r takes with
  | nil =>
    simp only [SubmissionQueue.prepareEach, Except.ok.injEq, Prod.mk.injEq] at hq
    obtain ⟨-, rfl, -⟩ := hq
    exact ⟨r, rfl, h⟩
  | cons x xs ih =>
    simp only [SubmissionQueue.prepareEach, SubmissionQueue.prepare] at hq
    rcases h.getNew hk takes with ⟨u₁, r₁, takes₁, hu, hr, h₁⟩ | ⟨slot, u₁, r₁, takes₁, hu, hr, hw⟩
    · simp only [hu] at hq
      simp only [RawSq.prepareEach, hr]
      exact ih (q := { q with ring := u₁ }) h₁ hq
    · simp only [hu] at hq
      simp only [RawSq.prepareEach, hr]
      cases hfind : RequestPool.find q.requestPool x.ptr with
      | none => simp only [hfind] at hq; cases hq
      | some b =>
        simp only [hfind] at hq
        exact ih (q := { q with ring := u₁.writeSqe slot fun _ => SubmissionQueue.entryFor x b.request })
          (hw (fun _ => SubmissionQueue.entryFor x b.request) (·.prepare x.ptr b.request)
            fun y e _ => y.prepare_says x b.request) hq

theorem submit_agrees {k : Nat} (hk : k < 32) {q q' : SubmissionQueue} {r : RawSq} {timeout : Int} {reply : SubmitReply}
    {st : SubmitStatus} (h : SqAgrees k q.ring r) (hq : q.submit timeout reply = .ok (st, q')) :
    ∃ r', r.submitPending q.requestPool q.pendingRequests.toList reply = .ok r' ∧ SqAgrees k q'.ring r' := by
  obtain ⟨n, q₁, hp, hcase⟩ := SubmissionQueue.submit_spec hq
  obtain ⟨hn, -⟩ := SubmissionQueue.preparePendingRequests_spec hp
  unfold SubmissionQueue.preparePendingRequests at hp
  split at hp
  · cases hp
  · rename_i q₂ takes₂ hp₂
    cases hp
    obtain ⟨r₂, hr₂, h₂⟩ := prepareEach_agrees hk h hp₂
    refine ⟨_, by rw [RawSq.submitPending, hr₂], ?_⟩
    rcases hcase with ⟨h0, rfl⟩ | ⟨h0, rfl⟩
    · rw [if_pos (hn.symm.trans h0)]
      exact h₂
    · rw [if_neg (fun h => h0 (hn.trans h))]
      exact h₂.submit hk reply.taken

/-! ## Completions -/

/-- The completion queue in memory is the one of the model, from its head on. -/
structure CqAgrees (k : Nat) (u : IoUring) (q : RawCq) : Prop where
  ringEntries : q.ringEntries = UInt32.ofNat (2 ^ k)
  head : Counts q.khead u.cqHead
  tail : Counts q.ktail u.posted.length
  fits : u.posted.length ≤ u.cqHead + 2 ^ k
  slots : ∀ i c, u.cqHead ≤ i → u.posted[i]? = some c → q.cqes (i % 2 ^ k) = c.raw

namespace CqAgrees

variable {k : Nat} (hk : k < 32) {u : IoUring} {q : RawCq} (h : CqAgrees k u q)
include h

theorem frame {u' : IoUring} (hp : u'.posted = u.posted) (hc : u'.cqHead = u.cqHead) : CqAgrees k u' q := by
  obtain ⟨h1, h2, h3, h4, h5⟩ := h
  exact ⟨h1, hc ▸ h2, hp ▸ h3, by rw [hp, hc]; exact h4, fun i c hi hi' => h5 i c (hc ▸ hi) (hp ▸ hi')⟩

theorem advance {nr : UInt32} {m : Nat} (hm : Counts nr m) : CqAgrees k (u.cqAdvance m) (q.advance nr) := by
  have hfits := h.fits
  refine ⟨h.ringEntries, h.head.sum hm, h.tail, ?_, fun i c hi hc => h.slots i c ?_ hc⟩
  · dsimp only [IoUring.cqAdvance]
    omega
  · dsimp only [IoUring.cqAdvance] at hi
    omega

include hk

/-- The entry at a counter is the completion there. -/
theorem entry {head : UInt32} {i : Nat} {c : Cqe} (hh : Counts head i) (hi : u.cqHead ≤ i) (hc : u.posted[i]? = some c) :
    q.entry head = c.raw := by
  rw [RawCq.entry, h.ringEntries, hh.slot hk]
  exact h.slots i c hi hc

/-- The iteration ends at the tail. -/
theorem ended_iff {head : UInt32} {i : Nat} (hh : Counts head i) (hi : u.cqHead ≤ i) (hle : i ≤ u.posted.length) :
    head = q.ktail ↔ u.posted[i]? = none := by
  have hpow : 2 ^ k ≤ 2 ^ 31 := Nat.pow_le_pow_right (by omega) (by omega)
  have hfits := h.fits
  rw [hh.eq_iff h.tail hle (by omega), List.getElem?_eq_none_iff]
  omega

theorem post {c : Cqe} {q' : RawCq} {u' : IoUring} (hp : q.post c.raw = some q') (hle : u.cqHead ≤ u.posted.length)
    (hpost : u'.posted = u.posted ++ [c]) (hhead : u'.cqHead = u.cqHead) : CqAgrees k u' q' := by
  have hpow : 2 ^ k ≤ 2 ^ 31 := Nat.pow_le_pow_right (by omega) (by omega)
  have hfits := h.fits
  unfold RawCq.post at hp
  split at hp
  · rename_i hroom
    cases hp
    have hroom : u.posted.length - u.cqHead < 2 ^ k := by
      rw [UInt32.lt_iff_toNat_lt, h.head.distance h.tail hle (by omega), h.ringEntries, UInt32.toNat_ofNat',
        Nat.mod_eq_of_lt (by omega)] at hroom
      exact hroom
    refine ⟨h.ringEntries, hhead ▸ h.head, ?_, ?_, fun i c' hi hc' => ?_⟩
    · rw [hpost, List.length_append]
      exact h.tail.succ
    · rw [hpost, hhead, List.length_append, List.length_singleton]
      omega
    · dsimp only
      rw [h.ringEntries, h.tail.slot hk]
      rw [hpost] at hc'
      rw [hhead] at hi
      rcases Nat.lt_or_ge i u.posted.length with hlt | hge
      · -- the slots of what has not been given back are others
        rw [List.getElem?_append_left hlt] at hc'
        rw [Function.update_of_ne]
        · exact h.slots i c' hi hc'
        · have hne := slot_ne (2 ^ k) u.cqHead (i := i - u.cqHead) (j := u.posted.length - u.cqHead) (by omega) hroom
          rwa [Nat.add_sub_cancel' hi, Nat.add_sub_cancel' hle] at hne
      · have hi0 : i = u.posted.length := by
          have := (List.getElem?_eq_some_iff.1 hc').1
          rw [List.length_append, List.length_singleton] at this
          omega
        subst hi0
        rw [List.getElem?_concat_length, Option.some.injEq] at hc'
        rw [Function.update_self, hc']
  · cases hp

end CqAgrees

/-! ## Runs -/

namespace Rings

open EventLoop

/-- The local variables of `forEachCompletion`, while it runs. -/
def Cursor (l : EventLoop) (head processed : UInt32) : Prop :=
  match l.phase with
  | .idle => True
  | .iterating i m => Counts head i ∧ Counts processed m
  | .handling i m _ _ => Counts head i ∧ Counts processed m

/-- The rings in memory do what the loop does. -/
structure Agrees (k : Nat) (p : Rings) : Prop where
  sq : SqAgrees k p.loop.ring p.sq
  cq : CqAgrees (k + 1) p.loop.ring p.cq
  cursor : Cursor p.loop p.head p.processed
  started : p.loop.ring.cqHead ≤ p.loop.finished
  called : p.called = (p.loop.ring.posted.take p.loop.dispatched).map Cqe.raw
  released : p.released = (p.loop.ring.posted.take p.loop.finished).map Cqe.raw

theorem agrees_new (k : Nat) : Agrees k (new k) := by
  refine ⟨⟨rfl, rfl, .zero, .zero, rfl, fun _ _ => ⟨RawSqe.read_initial, rfl⟩, .nil, .nil⟩,
    ⟨rfl, .zero, .zero, Nat.zero_le _, ?_⟩, trivial, Nat.le_refl _, rfl, rfl⟩
  intro i c _ hc
  rw [show (new k).loop.ring.posted = [] from rfl] at hc
  cases hc

section Steps
variable {k : Nat} {p : Rings} (h : Agrees k p)
include h

theorem Agrees.iterating {i m : Nat} (hph : p.loop.phase = .iterating i m) : Counts p.head i ∧ Counts p.processed m := by
  have hcur := h.cursor
  unfold Cursor at hcur
  rwa [hph] at hcur

theorem Agrees.handling {i m : Nat} {c : Cqe} {rb : Bool} (hph : p.loop.phase = .handling i m c rb) :
    Counts p.head i ∧ Counts p.processed m := by
  have hcur := h.cursor
  unfold Cursor at hcur
  rwa [hph] at hcur

variable (hp : Position p.loop)
include hp

/-- Steps outside the iteration leave its variables and what was read as they are. -/
theorem Agrees.keep {l : EventLoop} {sq : RawSq} {cq : RawCq} (hph : l.phase = p.loop.phase)
    (hc : l.ring.cqHead = p.loop.ring.cqHead) (hpost : ∃ cs, l.ring.posted = p.loop.ring.posted ++ cs)
    (hsq : SqAgrees k l.ring sq) (hcq : CqAgrees (k + 1) l.ring cq) : Agrees k { p with loop := l, sq, cq } := by
  obtain ⟨cs, hpost⟩ := hpost
  refine ⟨hsq, hcq, ?_, ?_, ?_, ?_⟩
  · have hcur := h.cursor
    unfold Cursor at hcur ⊢
    dsimp only
    rw [hph]
    exact hcur
  · dsimp only
    rw [finished_congr hph hc, hc]
    exact h.started
  · dsimp only
    rw [dispatched_congr hph hc, hpost, List.take_append_of_le_length (dispatched_le hp)]
    exact h.called
  · dsimp only
    rw [finished_congr hph hc, hpost, List.take_append_of_le_length hp.finished_le]
    exact h.released

/-- The end of the iteration, which gives back what was processed. -/
theorem Agrees.finish (hk : k < 31) {i m : Nat} (hph : p.loop.phase = .iterating i m)
    (hn : p.loop.ring.posted[i]? = none) : p.head = p.cq.ktail ∧ Agrees k { p with
      loop := { p.loop with
        submissionQueue := { p.loop.submissionQueue with ring := p.loop.ring.cqAdvance m }
        phase := .idle }
      cq := p.cq.advance p.processed } := by
  unfold Position at hp
  rw [hph] at hp
  obtain ⟨hi, hle⟩ := hp
  obtain ⟨hhead, hproc⟩ := h.iterating hph
  have hsq : SqAgrees k (p.loop.ring.cqAdvance m) p.sq :=
    ⟨h.sq.size, h.sq.ringEntries, h.sq.head, h.sq.tail, h.sq.flushed, h.sq.slots, h.sq.inflight, h.sq.received⟩
  refine ⟨(h.cq.ended_iff (by omega) hhead (by omega) hle).2 hn, hsq, h.cq.advance hproc, trivial, Nat.le_refl _, ?_, ?_⟩
  · have hd : p.loop.dispatched = p.loop.ring.cqHead + m := by simp only [dispatched, hph, hi]
    exact h.called.trans (by rw [hd]; rfl)
  · have hf : p.loop.finished = p.loop.ring.cqHead + m := by simp only [finished, hph, hi]
    exact h.released.trans (by rw [hf]; rfl)

/-- The completion that is dispatched is read where `head` points to. -/
theorem Agrees.dispatch (hk : k < 31) {i m : Nat} {c : Cqe} {d : Dispatched} (hph : p.loop.phase = .iterating i m)
    (hc : p.loop.ring.posted[i]? = some c) : p.head ≠ p.cq.ktail ∧ Agrees k { p with
      loop := { p.loop with
        phase := .handling i (m + 1) c d.releaseBuffer
        invocations := p.loop.invocations ++ [⟨i, c.owner, d.request, d.what⟩] }
      processed := p.processed + 1
      called := p.called ++ [p.cq.entry p.head] } := by
  unfold Position at hp
  rw [hph] at hp
  obtain ⟨hi, hle⟩ := hp
  obtain ⟨hhead, hproc⟩ := h.iterating hph
  have hne : p.head ≠ p.cq.ktail := by
    rw [Ne, h.cq.ended_iff (by omega) hhead (by omega) hle, hc]
    simp
  have hstart : p.loop.ring.cqHead ≤ i := by omega
  refine ⟨hne, h.sq, h.cq, ⟨hhead, hproc.succ⟩, hstart, ?_, ?_⟩
  · have hdis : p.loop.dispatched = i := by simp only [dispatched, hph]
    dsimp only [dispatched]
    rw [List.take_add_one, hc, List.map_append, h.called, hdis, h.cq.entry (by omega) hhead (by omega) hc]
    rfl
  · have hf : p.loop.finished = i := by simp only [finished, hph]
    exact hf ▸ h.released

/-- What is released is read there too, after the handler ran. -/
theorem Agrees.callbackReturn (hk : k < 31) {i m : Nat} {c : Cqe} {rb : Bool} {b : BufferRing} {q : SubmissionQueue}
    (hph : p.loop.phase = .handling i m c rb) (hq : p.loop.submissionQueue.release c = .ok q) : Agrees k { p with
      loop := { p.loop with bufferRing := b, submissionQueue := q, phase := .iterating (i + 1) m }
      head := p.head + 1
      released := p.released ++ [p.cq.entry p.head] } := by
  unfold Position at hp
  rw [hph] at hp
  obtain ⟨hi, hc⟩ := hp
  have hf : p.loop.finished = i := by simp only [finished, hph]
  have hle := hf ▸ h.started
  obtain ⟨hhead, hproc⟩ := h.handling hph
  rw [SubmissionQueue.release_same hq]
  refine ⟨h.sq, h.cq, ⟨hhead.succ, hproc⟩, Nat.le_succ_of_le hle, ?_, ?_⟩
  · have hdis : p.loop.dispatched = i + 1 := by simp only [dispatched, hph]
    exact hdis ▸ h.called
  · -- the entry is still what it was before the handler ran
    dsimp only [finished]
    rw [List.take_add_one, hc, List.map_append, h.released, hf, h.cq.entry (by omega) hhead hle hc]
    rfl

/-- Where the loop can take a step, the rings in memory take it too and still
agree, unless the kernel has to keep a completion back. -/
theorem follows (hk : k < 31) {l : EventLoop} {a : Action} (hl : p.loop.step a = .ok l) :
    (∃ p', p.step a = .ok p' ∧ p'.loop = l ∧ Agrees k p') ∨
      p.step a = .error .disabled ∧ (∃ i res flags, a = .post i res flags) ∧
        ¬ p.cq.ktail - p.cq.khead < p.cq.ringEntries := by
  have he := step_effect hl
  unfold step
  rw [hl]
  dsimp only
  cases he with
  | add _ => exact .inl ⟨_, rfl, rfl, h.keep hp rfl rfl ⟨[], (List.append_nil _).symm⟩ h.sq h.cq⟩
  | checkStatus _ =>
    rw [p.loop.checkStatus_same]
    exact .inl ⟨_, rfl, rfl, h.keep hp rfl rfl ⟨[], (List.append_nil _).symm⟩ h.sq h.cq⟩
  | @cancel fd taken =>
    obtain ⟨new, hm, -, -⟩ := p.loop.cancel_spec fd taken
    exact .inl ⟨_, rfl, rfl, h.keep hp rfl hm.cqHead ⟨[], hm.posted.trans (List.append_nil _).symm⟩
      (cancel_agrees (by omega) h.sq fd taken) (h.cq.frame hm.posted hm.cqHead)⟩
  | @submit timeout reply st q hi hq =>
    obtain ⟨-, got, -, -, hm, -⟩ := SubmissionQueue.submit_moves hq
    obtain ⟨sq, hsq, hagree⟩ := submit_agrees (by omega) h.sq hq
    dsimp only
    rw [hsq]
    exact .inl ⟨_, rfl, rfl, h.keep hp rfl hm.cqHead ⟨[], hm.posted.trans (List.append_nil _).symm⟩ hagree
      (h.cq.frame hm.posted hm.cqHead)⟩
  | begin hi =>
    refine .inl ⟨_, rfl, rfl, h.sq, h.cq, ⟨h.cq.head, .zero⟩, Nat.le_refl _, ?_, ?_⟩
    · have hd : p.loop.dispatched = p.loop.ring.cqHead := by simp only [dispatched, hi]
      exact hd ▸ h.called
    · have hf : p.loop.finished = p.loop.ring.cqHead := by simp only [finished, hi]
      exact hf ▸ h.released
  | finish hph hn =>
    obtain ⟨hend, hagree⟩ := h.finish hp hk hph hn
    rw [if_pos hend, p.cq.advance_skip]
    exact .inl ⟨_, rfl, rfl, hagree⟩
  | dispatch hph hc _ =>
    obtain ⟨hne, hagree⟩ := h.dispatch hp hk hph hc
    rw [if_neg hne]
    exact .inl ⟨_, rfl, rfl, hagree⟩
  | callbackReturn hph _ hq => exact .inl ⟨_, rfl, rfl, h.callbackReturn hp hk hph hq⟩
  | @post i res flags e b hin hmore hbuf =>
    obtain ⟨x, hx, hsays⟩ : ∃ x, p.sq.inflight[i]? = some x ∧ Says x e := by
      obtain ⟨hlen, hget⟩ := List.forall₂_iff_get.1 h.sq.inflight
      obtain ⟨hi, rfl⟩ := List.getElem?_eq_some_iff.1 hin
      exact ⟨_, List.getElem?_eq_getElem (hlen ▸ hi), hget i (hlen ▸ hi) hi⟩
    have hraw : (⟨x.userData, res, flags⟩ : RawCqe) = Cqe.raw ⟨e.userData, res, flags, e.owner⟩ := by
      rw [Cqe.raw, hsays.userData]
    dsimp only
    rw [hx]
    dsimp only
    rw [hraw]
    cases hpost : p.cq.post (Cqe.raw ⟨e.userData, res, flags, e.owner⟩) with
    | none =>
      refine .inr ⟨rfl, ⟨i, res, flags, rfl⟩, fun hroom => ?_⟩
      simp only [RawCq.post, if_pos hroom] at hpost
      cases hpost
    | some cq =>
      have hhead : p.loop.ring.cqHead ≤ p.loop.ring.posted.length := h.started.trans hp.finished_le
      exact .inl ⟨_, rfl, rfl, h.keep hp rfl rfl ⟨_, rfl⟩ (h.sq.post i e res flags)
        (h.cq.post (by omega) hpost hhead rfl rfl)⟩

end Steps

section Runs
variable {k : Nat} (hk : k < 31) {p : Rings}
include hk

theorem step_agrees {p' : Rings} {a : Action} (h : Agrees k p) (hp : Position p.loop) (hs : p.step a = .ok p') :
    p.loop.step a = .ok p'.loop ∧ Agrees k p' := by
  cases hl : p.loop.step a with
  | error e =>
    unfold step at hs
    rw [hl] at hs
    cases hs
  | ok l =>
    rcases follows h hp hk hl with ⟨p'', hs', rfl, h'⟩ | ⟨hs', -⟩
    · rw [hs] at hs'
      cases hs'
      exact ⟨rfl, h'⟩
    · rw [hs] at hs'
      cases hs'

theorem agrees_run (h : Run step anyAction (new k) p) :
    Run EventLoop.step anyAction (.new (2 ^ k) 0) p.loop ∧ Agrees k p := by
  refine Run.inv (fun p => Run EventLoop.step anyAction (.new (2 ^ k) 0) p.loop ∧ Agrees k p) ⟨.refl, agrees_new k⟩ ?_ h
  rintro s a s' ⟨hr, hi⟩ _ hs
  obtain ⟨hl, hi'⟩ := step_agrees hk hi (reach_position hr) hs
  exact ⟨hr.step trivial hl, hi'⟩

end Runs

/-- For every run on rings of any size, however often their counters wrap: the
loop's part of it is a run of the loop; the entries the kernel took say, in
order, what the loop's do; and what the loop can do next the rings can do too,
except that the kernel keeps a completion back while the queue is full. -/
theorem rings_refine_loop {k : Nat} (hk : k < 31) {p : Rings} (h : Run step anyAction (new k) p) :
    Run EventLoop.step anyAction (.new (2 ^ k) 0) p.loop ∧ List.Forall₂ Says p.sq.received p.loop.ring.submitted ∧
      ∀ a l, p.loop.step a = .ok l → (∃ p', p.step a = .ok p' ∧ p'.loop = l) ∨
        (∃ i res flags, a = .post i res flags) ∧ ¬ p.cq.ktail - p.cq.khead < p.cq.ringEntries := by
  obtain ⟨hr, hi⟩ := agrees_run hk h
  refine ⟨hr, hi.sq.received, fun a l hl => ?_⟩
  rcases follows hi (reach_position hr) hk hl with ⟨p', hs, hl', -⟩ | ⟨-, hpost, hfull⟩
  · exact .inl ⟨p', hs, hl'⟩
  · exact .inr ⟨hpost, hfull⟩

/-- Five requests and a cancel through two slots; the queue for completions has four. -/
def reusedSlots : List Action :=
  [.add (.accept 3) (some 1) 100, .add (.write 5 ⟨4096, 64⟩) (some 2) 200, .add (.write 5 ⟨8192, 2 ^ 32 + 7⟩) (some 2) 300,
    .submit 100 { takes := [2], taken := 1, ret := 1 }, .post 1 64 0, .begin, .next, .post 0 7 2, .callbackReturn,
    .add (.connect 6 16384 16) (some 4) 200, .next, .callbackReturn, .next, .cancel 3 1,
    .submit 100 { takes := [1], taken := 2, ret := 2 }]

theorem rings_refine_loop_reused :
    ∃ p, Run step anyAction (new 1) p ∧ 4 ≤ p.sq.received.length ∧ List.Forall₂ Says p.sq.received p.loop.ring.submitted := by
  obtain ⟨p, hr, hp⟩ := exists_run_any step (new 1) reusedSlots (fun p => decide (4 ≤ p.sq.received.length))
    (by decide +kernel)
  exact ⟨p, hr, of_decide_eq_true hp, (rings_refine_loop (by decide) hr).2.1⟩

/-- No run of the rings cancels anything. -/
def NotCancelled (p : Rings) (a : Action) : Prop := NotCancel p.loop a

instance (p : Rings) (a : Action) : Decidable (NotCancelled p a) := inferInstanceAs (Decidable (NotCancel p.loop a))

theorem notCancel_loop {k : Nat} (hk : k < 31) {p : Rings} (h : Run step NotCancelled (new k) p) :
    Run EventLoop.step NotCancel (.new (2 ^ k) 0) p.loop := by
  refine Run.simulate (·.loop) (fun s a s' hr hc hs => ?_) h
  obtain ⟨hr', hi⟩ := agrees_run hk hr.any
  exact Run.refl.step hc (step_agrees hk hi (reach_position hr') hs).1

/-- Without cancels, whatever its slot was used for before, every entry the
kernel took is read as a request that was accepted, and carries the address of
that request's block. It is read as the request that was made exactly if the
addresses and sizes of it fit into the fields. -/
theorem entries_read_back {k : Nat} (hk : k < 31) {p : Rings} (h : Run step NotCancelled (new k) p) {x : RawSqe}
    (hx : x ∈ p.sq.received) :
    ∃ (id : Nat) (a : Accepted), p.loop.accepted[id]? = some a ∧ x.read = some a.request.prep.narrow ∧ x.userData = UInt64.ofNat a.addr ∧
      (x.read = some a.request.prep ↔ a.request.prep.fits) := by
  have hr := notCancel_loop hk h
  obtain ⟨hlen, hget⟩ := List.forall₂_iff_get.1 (agrees_run hk h.any).2.sq.received
  obtain ⟨i, hi, rfl⟩ := List.getElem_of_mem hx
  obtain ⟨hread, hdata⟩ := hget i hi (hlen ▸ hi)
  obtain ⟨id, a, ha, he⟩ := (faithful_ordered_run hr).1 _ (List.mem_append_left _ (List.getElem_mem (hlen ▸ hi)))
  simp only [List.get_eq_getElem, he] at hread hdata
  refine ⟨id, a, ha, hread, hdata, ?_⟩
  rw [hread, Option.some.injEq]
  exact a.request.prep.narrow_eq_iff

/-- A write of more than 4 GiB asks for its size modulo `2 ^ 32`. -/
theorem entries_read_back_reused :
    ∃ p x, Run step NotCancelled (new 1) p ∧ x ∈ p.sq.received ∧ x.read = some (.write 5 ⟨8192, 7⟩) ∧
      ∃ a : Accepted, x.read = some a.request.prep.narrow ∧ (x.read = some a.request.prep ↔ a.request.prep.fits) := by
  obtain ⟨p, hr, hp⟩ := exists_run step (fun p a => decide (NotCancelled p a)) (fun _ _ => of_decide_eq_true) (new 1)
    [.add (.accept 3) (some 1) 100, .add (.write 5 ⟨4096, 64⟩) (some 2) 200,
      .add (.write 5 ⟨8192, 2 ^ 32 + 7⟩) (some 2) 300, .submit 100 { takes := [2], taken := 1, ret := 1 }]
    (fun p => p.sq.received.any fun x => x.read == some (.write 5 ⟨8192, 7⟩)) (by decide +kernel)
  obtain ⟨x, hx, hread⟩ := List.any_eq_true.1 hp
  obtain ⟨id, a, -, hnarrow, -, hiff⟩ := entries_read_back (by decide) hr hx
  exact ⟨p, x, hr, hx, beq_iff_eq.1 hread, a, hnarrow, hiff⟩

/-- Whatever the kernel posts while a handler runs, what `release` reads
through the completion pointer afterwards is what the handler was called with:
the completions, in the order they were posted, each once. -/
theorem completions_unmoved {k : Nat} (hk : k < 31) {p : Rings} (h : Run step anyAction (new k) p) :
    p.called = (p.loop.ring.posted.take p.loop.invocations.length).map Cqe.raw ∧
      p.released = p.called.take p.loop.finished := by
  obtain ⟨hr, hi⟩ := agrees_run hk h
  have hlen := congrArg List.length (reach_inOrder hr)
  rw [List.length_map, List.length_range] at hlen
  refine ⟨by rw [hlen]; exact hi.called, ?_⟩
  have hle : p.loop.finished ≤ p.loop.dispatched := by
    unfold finished dispatched
    split <;> simp
  rw [hi.called, hi.released, ← List.map_take, List.take_take, Nat.min_eq_left hle]

/-- The second completion arrives while the handler of the first runs. -/
theorem completions_unmoved_reused :
    ∃ p, Run step anyAction (new 1) p ∧ p.called.length = 2 ∧ p.released = p.called := by
  obtain ⟨p, hr, hp⟩ := exists_run_any step (new 1) reusedSlots
    (fun p => p.called.length == 2 && p.loop.finished == 2) (by decide +kernel)
  simp only [Bool.and_eq_true, beq_iff_eq] at hp
  refine ⟨p, hr, hp.1, ?_⟩
  rw [(completions_unmoved (by decide) hr).2, hp.2, ← hp.1, List.take_length]

end Rings

end RingNet
