import Mathlib.Tactic.Common

namespace Bwuhos.Data.Table

/-! # Tables of a fixed size

A slot is a position of the table, so reading and replacing an entry need no proof.
-/

variable {Entry : Type} {size : Nat} {table : Vector Entry size} {slot other : Fin size} {entry : Entry}

theorem get_set_self : (table.set slot entry slot.isLt).get slot = entry :=
  Vector.getElem_set_self slot.isLt

theorem get_set_other (different : other ≠ slot) : (table.set slot entry slot.isLt).get other = table.get other :=
  Vector.getElem_set_ne slot.isLt other.isLt fun same => different (Fin.ext same.symm)

theorem get_replicate : (Vector.replicate size entry).get slot = entry :=
  Vector.getElem_replicate slot.isLt

/-- As many slots come before a position as its number says. -/
theorem countP_before {position : Nat} (inside : position ≤ size) :
    (List.finRange size).countP (fun slot => slot.val < position) = position := by
  induction size generalizing position with
  | zero => exact (Nat.le_zero.mp inside).symm
  | succ size ih =>
      rw [List.finRange_succ, List.countP_cons, List.countP_map]
      cases position with
      | zero => simp
      | succ position =>
          have rest := ih (Nat.le_of_succ_le_succ inside)
          simpa [Function.comp_def] using rest

end Bwuhos.Data.Table
