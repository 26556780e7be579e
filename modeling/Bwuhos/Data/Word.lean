import Mathlib.Data.Nat.Bitwise
import Mathlib.Tactic.Common

namespace Bwuhos.Data

/-! # Unsigned 64-bit arithmetic

Machine integers are natural numbers.  An operation that can leave the range of
an unsigned 64-bit integer is wrapped by `u64` (or `u64Sub`), so every place where
the arithmetic can overflow stays visible.
-/

/-- The value an unsigned 64-bit integer holds after `value` is stored in it. -/
def u64 (value : Nat) : Nat := value % 2 ^ 64

/-- Unsigned 64-bit subtraction of two values that are themselves in range. -/
def u64Sub (left right : Nat) : Nat := (left + 2 ^ 64 - right) % 2 ^ 64

/-- The signed 64-bit integer with the bits of an unsigned one. -/
def toS64 (value : Nat) : Int := if value < 2 ^ 63 then value else value - 2 ^ 64

/-- The unsigned 64-bit integer with the bits of a signed one. -/
def toU64 (value : Int) : Nat := (value % 2 ^ 64).toNat

/-- The signed 32-bit integer that an overflowing one wraps to. -/
def toS32 (value : Int) : Int := value.bmod (2 ^ 32)

theorem u64_lt (value : Nat) : u64 value < 2 ^ 64 := Nat.mod_lt _ (by decide)

theorem u64_of_lt {value : Nat} (bound : value < 2 ^ 64) : u64 value = value :=
  Nat.mod_eq_of_lt bound

theorem u64_le (value : Nat) : u64 value ≤ value := Nat.mod_le _ _

theorem u64Sub_of_le {left right : Nat} (order : right ≤ left) (bound : left < 2 ^ 64) :
    u64Sub left right = left - right := by
  unfold u64Sub
  omega

theorem toS64_of_lt {value : Nat} (bound : value < 2 ^ 63) : toS64 value = value := if_pos bound

theorem toS32_add (left right : Int) : toS32 (toS32 left + right) = toS32 (left + right) := Int.bmod_add_bmod

theorem toS32_of_small {value : Int} (lower : -2 ^ 31 ≤ value) (upper : value < 2 ^ 31) : toS32 value = value := by
  rw [toS32, Int.bmod_eq_of_le]
  all_goals simp only [Nat.reducePow]; omega

/-- Only 0 can be added without a change. -/
theorem toS32_add_ne {change value : Int} (lower : -2 ^ 31 ≤ change) (upper : change < 2 ^ 31) (nonzero : change ≠ 0) :
    toS32 (change + value) ≠ value := by
  intro same
  apply nonzero
  unfold toS32 Int.bmod at same
  simp only [Nat.reducePow] at same
  split at same <;> omega

theorem toU64_lt (value : Int) : toU64 value < 2 ^ 64 := by
  unfold toU64
  omega

theorem toU64_toS64 {value : Nat} (bound : value < 2 ^ 64) : toU64 (toS64 value) = value := by
  unfold toU64 toS64
  split <;> omega

/-- `value & ~(2 ^ shift - 1)` on 64 bits. -/
def maskLow (shift value : Nat) : Nat := value &&& (2 ^ 64 - 2 ^ shift)

theorem testBit_highMask {shift : Nat} (small : shift ≤ 64) (index : Nat) :
    (2 ^ 64 - 2 ^ shift).testBit index = (decide (shift ≤ index) && decide (index < 64)) := by
  have factored : 2 ^ 64 - 2 ^ shift = 2 ^ shift * (2 ^ (64 - shift) - 1) := by
    rw [Nat.mul_sub, Nat.mul_one, ← Nat.pow_add, Nat.add_sub_cancel' small]
  rw [factored, Nat.testBit_two_pow_mul, Nat.testBit_two_pow_sub_one]
  by_cases low : shift ≤ index
  · have same : index - shift < 64 - shift ↔ index < 64 := by omega
    simp only [low, decide_true, Bool.true_and, same]
  · simp only [low, decide_false, Bool.false_and]

theorem maskLow_eq {shift value : Nat} (small : shift ≤ 64) (bound : value < 2 ^ 64) :
    maskLow shift value = value / 2 ^ shift * 2 ^ shift := by
  apply Nat.eq_of_testBit_eq
  intro index
  rw [maskLow, Nat.testBit_and, testBit_highMask small, Nat.mul_comm, Nat.testBit_two_pow_mul,
    Nat.testBit_div_two_pow]
  by_cases low : shift ≤ index
  · have position : shift + (index - shift) = index := by omega
    rw [show index - shift + shift = index by omega]
    by_cases high : index < 64
    · simp only [low, high, decide_true, Bool.and_true, Bool.true_and]
    · have zero : value.testBit index = false :=
        Nat.testBit_lt_two_pow (Nat.lt_of_lt_of_le bound (Nat.pow_le_pow_right (by decide) (by omega)))
      simp only [zero, Bool.false_and, Bool.and_false]
  · simp only [low, decide_false, Bool.false_and, Bool.and_false]

theorem aligned_lor (shift : Nat) {address flags : Nat} (aligned : address % 2 ^ shift = 0)
    (small : flags < 2 ^ shift) : address ||| flags = address + flags := by
  have multiple : address = 2 ^ shift * (address / 2 ^ shift) := by
    have := Nat.div_add_mod address (2 ^ shift)
    omega
  rw [multiple]
  exact (Nat.two_pow_add_eq_or_of_lt small _).symm

end Bwuhos.Data
