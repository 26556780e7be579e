import Bwuhos.Data.Loop
import Mathlib.Algebra.Group.Nat.Defs

namespace Bwuhos.Kutil

open Bwuhos.Data

/-! # `ku_spin_cycles`

The loop counter is an `unsigned`, which is compared with an `unsigned long long`.
-/

/-- The counter, and the number of iterations that are done. -/
structure Spin where
  i : BitVec 32
  iterations : Nat
  deriving DecidableEq, Repr

def spinRound (ncycles : BitVec 64) (s : Spin) : Except Unit (Spin ⊕ Nat) :=
  if s.i.setWidth 64 < ncycles then .ok (.inl { i := s.i + 1, iterations := s.iterations + 1 })
  else .ok (.inr s.iterations)

/-- The iterations the loop ends after. -/
def kuSpinCycles (ncycles : BitVec 64) (fuel : Nat) : Except Unit Nat :=
  loop () (spinRound ncycles) fuel { i := 0, iterations := 0 }

variable {ncycles : BitVec 64} {s : Spin}

theorem spinRound_next (below : s.i.toNat < ncycles.toNat) :
    spinRound ncycles s = .ok (.inl { i := s.i + 1, iterations := s.iterations + 1 }) := by
  have less : s.i.setWidth 64 < ncycles := by
    rw [BitVec.lt_def, BitVec.toNat_setWidth]
    omega
  exact if_pos less

theorem spinRound_done (reached : s.i.toNat = ncycles.toNat) : spinRound ncycles s = .ok (.inr s.iterations) := by
  have equal : ¬s.i.setWidth 64 < ncycles := by
    rw [BitVec.lt_def, BitVec.toNat_setWidth]
    omega
  exact if_neg equal

/-- As long as the counter has not wrapped it is the number of iterations. -/
theorem spin_settles {left : Nat} (counts : s.i.toNat = s.iterations) (remaining : s.iterations + left = ncycles.toNat)
    (small : ncycles.toNat < 2 ^ 32) :
    Settles () (fun fuel => loop () (spinRound ncycles) fuel s) ncycles.toNat := by
  induction left generalizing s with
  | zero =>
      have reached : s.iterations = ncycles.toNat := by omega
      rw [← reached]
      exact settles_loop_done (spinRound_done (counts.trans reached))
  | succ left ih =>
      have next : (s.i + 1).toNat = s.iterations + 1 := by
        rw [BitVec.toNat_add, counts]
        exact Nat.mod_eq_of_lt (show s.iterations + 1 < 2 ^ 32 by omega)
      exact settles_loop_next (spinRound_next (by omega)) (ih next (by simp only; omega))

/-- The counter is below a bound that it cannot represent whatever its value. -/
theorem kuSpinCycles_endless (large : 2 ^ 32 ≤ ncycles.toNat) (fuel : Nat) : kuSpinCycles ncycles fuel = .error () :=
  loop_endless fun s => ⟨_, spinRound_next (Nat.lt_of_lt_of_le s.i.isLt large)⟩

theorem kuSpinCycles_terminates (ncycles : BitVec 64) :
    (∃ fuel, kuSpinCycles ncycles fuel = .ok ncycles.toNat) ↔ ncycles.toNat < 2 ^ 32 := by
  constructor
  · intro ends
    obtain ⟨fuel, ended⟩ := ends
    apply Nat.lt_of_not_le
    intro large
    rw [kuSpinCycles_endless large] at ended
    cases ended
  · intro small
    exact (spin_settles rfl (Nat.zero_add _) small).returns

theorem kuSpinCycles_wraps : ¬∃ fuel, kuSpinCycles 0x100000000 fuel = .ok 0x100000000 := by
  intro ends
  obtain ⟨fuel, ended⟩ := ends
  cases (@kuSpinCycles_endless 0x100000000 (by decide) fuel).symm.trans ended

end Bwuhos.Kutil
