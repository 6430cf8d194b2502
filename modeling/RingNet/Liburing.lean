import RingNet.Lib.Window
import RingNet.Requests
/-!
# The io_uring instance

The submission ring as liburing keeps it, and the kernel behind it.

Submission entries live in `ringEntries` slots that are handed out
cyclically. `getSqe` gives out the next slot as it is: neither it nor the
`io_uring_prep_*` helpers write the slot's `user_data`, which stays what the
slot's last user set. `submit` offers every prepared entry to the kernel,
which takes any number of them from the front. The counters are 32-bit in
liburing; the ring size divides `2^32`, so they are natural numbers here.

The kernel completes entries it has taken in any order. A completion carries
the `user_data` its entry had. `posted` is everything the kernel ever put in
the completion queue, and `cqHead` how much of it the program has given back.

`owner`, `submitted` and `enters` are for the proofs only: whom an entry was
prepared for, every entry the kernel took, and how often it was entered.
-/

namespace RingNet

open Lib

/-- Whom a submission entry was prepared for: a request accepted by
`EventLoop::add`, or a call of `SubmissionQueue::cancel`, each numbered in
order. -/
inductive Owner
  | request (id : Nat)
  | cancel (id : Nat)
  deriving DecidableEq, Repr

/-- What an `io_uring_prep_*` helper wrote into an entry. -/
inductive Prep
  | nop
  | multishotAccept (fd : Fd)
  | connect (fd : Fd) (addr : Nat) (addrlen : Nat)
  | read (fd : Fd) (buf : Span)
  | readMultishot (fd : Fd) (bufGroup : UInt16)
  | write (fd : Fd) (buf : Span)
  | cancelFd (fd : Fd)
  deriving DecidableEq, Repr

def Prep.multishot : Prep → Bool
  | .multishotAccept _ | .readMultishot .. => true
  | _ => false

/-- Only a multi-shot read asks for a provided buffer (`IOSQE_BUFFER_SELECT`). -/
def Prep.selectsBuffer : Prep → Bool
  | .readMultishot .. => true
  | _ => false

/-- The descriptor the kernel resolves when it takes the entry. -/
def Prep.fd : Prep → Fd
  | .nop => -1
  | .multishotAccept fd | .connect fd _ _ | .read fd _ | .readMultishot fd _ | .write fd _ | .cancelFd fd => fd

structure Sqe where
  prep : Prep := .nop
  userData : Nat := 0
  owner : Option Owner := none
  deriving DecidableEq, Repr

def IORING_CQE_F_BUFFER : UInt32 := 1
def IORING_CQE_F_MORE : UInt32 := 2
def IORING_CQE_BUFFER_SHIFT : UInt32 := 16

structure Cqe where
  userData : Nat
  res : Int
  flags : UInt32
  owner : Option Owner
  deriving DecidableEq, Repr

def Cqe.hasBuffer (c : Cqe) : Bool := c.flags &&& IORING_CQE_F_BUFFER != 0
def Cqe.hasMore (c : Cqe) : Bool := c.flags &&& IORING_CQE_F_MORE != 0
def Cqe.bufferId (c : Cqe) : Nat := (c.flags >>> IORING_CQE_BUFFER_SHIFT).toNat

structure IoUring where
  ringEntries : Nat
  sqes : Nat → Sqe := fun _ => {}
  sqHead : Nat := 0
  sqTail : Nat := 0
  head_le_tail : sqHead ≤ sqTail := by omega
  tail_fits : sqTail ≤ sqHead + ringEntries := by omega
  inflight : List Sqe := []
  posted : List Cqe := []
  cqHead : Nat := 0
  submitted : List Sqe := []
  enters : Nat := 0

namespace IoUring

/-- The entries that have been handed out and not taken by the kernel. -/
def unsubmitted (u : IoUring) : List Sqe := window u.sqes u.ringEntries u.sqHead (u.sqTail - u.sqHead)

/-- The next slot, if one is free. -/
def getSqe (u : IoUring) : Option (Nat × IoUring) :=
  if h : u.sqTail + 1 - u.sqHead ≤ u.ringEntries then
    some (u.sqTail % u.ringEntries,
      { u with
        sqTail := u.sqTail + 1
        head_le_tail := by have := u.head_le_tail; omega
        tail_fits := by omega })
  else none

/-- Write a slot: an `io_uring_prep_*` helper, `io_uring_sqe_set_data`. -/
def writeSqe (u : IoUring) (slot : Nat) (f : Sqe → Sqe) : IoUring :=
  { u with sqes := Function.update u.sqes slot (f (u.sqes slot)) }

/-- Offer all prepared entries to the kernel, which takes `taken` of them (all
of them if there are fewer). -/
def submit (u : IoUring) (taken : Nat) : IoUring :=
  { u with
    sqHead := u.sqHead + min taken (u.sqTail - u.sqHead)
    head_le_tail := by have := u.head_le_tail; omega
    tail_fits := by have := u.tail_fits; omega
    inflight := u.inflight ++ u.unsubmitted.take taken
    submitted := u.submitted ++ u.unsubmitted.take taken
    enters := u.enters + 1 }

/-- The kernel completes the `i`-th entry it holds. Without
`IORING_CQE_F_MORE` this was the entry's last completion. -/
def post (u : IoUring) (i : Nat) (e : Sqe) (res : Int) (flags : UInt32) : IoUring :=
  let c : Cqe := ⟨e.userData, res, flags, e.owner⟩
  { u with posted := u.posted ++ [c], inflight := if c.hasMore then u.inflight else u.inflight.eraseIdx i }

/-- `io_uring_cq_advance`. -/
def cqAdvance (u : IoUring) (n : Nat) : IoUring := { u with cqHead := u.cqHead + n }

/-- Where the next slot is. -/
def nextSlot (u : IoUring) : Nat := u.sqTail % u.ringEntries

/-- The `user_data` its last user left in the next slot. -/
def leftOver (u : IoUring) : Nat := (u.sqes u.nextSlot).userData

/-- How many slots are free. -/
def room (u : IoUring) : Nat := u.ringEntries - (u.sqTail - u.sqHead)

/-! ## What the operations do to the entries -/

theorem unsubmitted_length (u : IoUring) : u.unsubmitted.length = u.sqTail - u.sqHead :=
  window_length ..

theorem unsubmitted_le (u : IoUring) : u.unsubmitted.length ≤ u.ringEntries := by
  have := u.tail_fits
  rw [unsubmitted_length]; omega

/-- `io_uring_get_sqe` fails exactly when there is no room. -/
theorem getSqe_eq_none (u : IoUring) : u.getSqe = none ↔ u.room = 0 := by
  have := u.tail_fits
  have := u.head_le_tail
  unfold room
  simp only [getSqe, dite_eq_right_iff, reduceCtorEq, imp_false]
  omega

/-- From `u` to `u'` the program prepared the entries `new` and the kernel
took a prefix of what was waiting; nothing else changed. -/
structure Moves (u u' : IoUring) (new : List Sqe) : Prop where
  taken : ∃ m, u.unsubmitted ++ new = m ++ u'.unsubmitted ∧ u'.inflight = u.inflight ++ m ∧
    u'.submitted = u.submitted ++ m
  tail : u'.sqTail = u.sqTail + new.length
  posted : u'.posted = u.posted
  cqHead : u'.cqHead = u.cqHead
  ringEntries : u'.ringEntries = u.ringEntries
  enters : u.enters ≤ u'.enters

theorem Moves.refl (u : IoUring) : Moves u u [] :=
  ⟨⟨[], by simp⟩, rfl, rfl, rfl, rfl, Nat.le_refl _⟩

theorem Moves.trans {u u' u'' : IoUring} {a b : List Sqe} (h : Moves u u' a) (h' : Moves u' u'' b) :
    Moves u u'' (a ++ b) := by
  obtain ⟨⟨m, hm, hi, hs⟩, ht, hp, hc, hr, he⟩ := h
  obtain ⟨⟨m', hm', hi', hs'⟩, ht', hp', hc', hr', he'⟩ := h'
  refine ⟨⟨m ++ m', ?_, ?_, ?_⟩, ?_, hp'.trans hp, hc'.trans hc, hr'.trans hr, he.trans he'⟩
  · rw [← List.append_assoc, hm, List.append_assoc, hm', List.append_assoc]
  · rw [hi', hi, List.append_assoc]
  · rw [hs', hs, List.append_assoc]
  · rw [ht', ht, List.length_append]; omega

theorem submit_unsubmitted (u : IoUring) (n : Nat) : (u.submit n).unsubmitted = u.unsubmitted.drop n := by
  have hlen := u.unsubmitted_length
  by_cases h : n ≤ u.sqTail - u.sqHead
  · simp only [unsubmitted, submit, Nat.min_eq_left h, ← window_drop]
    congr 1
    omega
  · rw [List.drop_eq_nil_of_le (by omega)]
    simp only [unsubmitted, submit, Nat.min_eq_right (Nat.le_of_not_le h)]
    rw [show u.sqTail - (u.sqHead + (u.sqTail - u.sqHead)) = 0 by omega, window_zero]

theorem submit_moves (u : IoUring) (n : Nat) : Moves u (u.submit n) [] :=
  ⟨⟨u.unsubmitted.take n, by rw [submit_unsubmitted]; simp, rfl, rfl⟩, rfl, rfl, rfl, rfl, Nat.le_succ _⟩

/-- Taking a slot and writing it appends the entry. -/
theorem getSqe_moves {u u' : IoUring} {slot : Nat} (h : u.getSqe = some (slot, u')) (f : Sqe → Sqe) :
    slot = u.nextSlot ∧ Moves u (u'.writeSqe slot f) [f (u.sqes u.nextSlot)] := by
  simp only [getSqe, Option.dite_none_right_eq_some, Option.some.injEq, Prod.mk.injEq] at h
  obtain ⟨hfree, rfl, rfl⟩ := h
  have hle := u.head_le_tail
  refine ⟨rfl, ⟨⟨[], ?_, by simp [writeSqe], by simp [writeSqe]⟩, rfl, rfl, rfl, rfl, Nat.le_refl _⟩⟩
  have hpush := window_push u.sqes u.ringEntries u.sqHead (u.sqTail - u.sqHead) (f (u.sqes u.nextSlot)) (by omega)
  rw [show u.sqHead + (u.sqTail - u.sqHead) = u.sqTail by omega] at hpush
  simp only [unsubmitted, writeSqe, nextSlot, List.nil_append] at hpush ⊢
  rw [show u.sqTail + 1 - u.sqHead = u.sqTail - u.sqHead + 1 by omega, hpush]

/-- Every waiting or taken entry was waiting or taken before, or is new. -/
theorem Moves.mem {u u' : IoUring} {new : List Sqe} (h : Moves u u' new) {e : Sqe}
    (he : e ∈ u'.unsubmitted ∨ e ∈ u'.inflight) : e ∈ u.unsubmitted ∨ e ∈ u.inflight ∨ e ∈ new := by
  obtain ⟨m, hm, hi, -⟩ := h.taken
  have hmem : e ∈ m ++ u'.unsubmitted → e ∈ u.unsubmitted ∨ e ∈ u.inflight ∨ e ∈ new := by
    rw [← hm, List.mem_append]
    rintro (h | h)
    · exact .inl h
    · exact .inr (.inr h)
  rcases he with he | he
  · exact hmem (List.mem_append_right _ he)
  · rw [hi, List.mem_append] at he
    rcases he with he | he
    · exact .inr (.inl he)
    · exact hmem (List.mem_append_left _ he)

/-- Counting entries: none appears or disappears but the new ones. -/
theorem Moves.count {u u' : IoUring} {new : List Sqe} (h : Moves u u' new) (p : Sqe → Bool) :
    u'.unsubmitted.countP p + u'.inflight.countP p =
      u.unsubmitted.countP p + u.inflight.countP p + new.countP p := by
  obtain ⟨m, hm, hi, -⟩ := h.taken
  have := congrArg (List.countP p) hm
  rw [hi]
  simp only [List.countP_append] at this ⊢
  omega

end IoUring

end RingNet
