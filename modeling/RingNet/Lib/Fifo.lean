import Mathlib.Data.List.Perm.Basic
import RingNet.Lib.Runs
/-!
# A queue of things that are lent out

Things wait in a queue. `take` lends out the first one; `giveBack` returns
one that is lent, in any order, to the end of the queue. No thing appears or
disappears (`Fifo.perm_step`), so a queue of distinct things stays one.
-/

namespace Lib

variable {α : Type}

structure Fifo (α : Type) where
  waiting : List α
  lent : List α := []

namespace Fifo

inductive Action (α : Type)
  | take
  | giveBack (x : α)

variable [DecidableEq α]

def step (q : Fifo α) : Action α → Except Unit (Fifo α)
  | .take =>
    match q.waiting with
    | [] => .error ()
    | x :: xs => .ok ⟨xs, q.lent ++ [x]⟩
  | .giveBack x => if x ∈ q.lent then .ok ⟨q.waiting ++ [x], q.lent.erase x⟩ else .error ()

/-- Everything stays waiting or lent. -/
theorem perm_step {q q' : Fifo α} {a : Action α} (h : q.step a = .ok q') :
    (q'.waiting ++ q'.lent).Perm (q.waiting ++ q.lent) := by
  cases a with
  | take =>
    simp only [step] at h
    split at h
    · cases h
    · rename_i x xs hw
      cases h
      rw [hw, ← List.append_assoc]
      exact List.perm_append_comm
  | giveBack x =>
    simp only [step] at h
    split at h
    · rename_i hx
      cases h
      rw [List.append_assoc]
      exact (List.perm_cons_erase hx).symm.append_left _
    · cases h

end Fifo

end Lib
