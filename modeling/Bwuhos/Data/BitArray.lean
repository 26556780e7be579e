import Mathlib.Logic.Function.Basic
import Mathlib.Tactic.Common

namespace Bwuhos.Data

/-! # Bit arrays in byte memory

A packed array of bits that starts at some byte address: bit `index` is bit
`index % 8` of the byte `index / 8` places after the start.  The three operations
are the usual shift-and-mask expressions; the lemmas say that two indices only
interfere when they are equal, and that a write stays inside its own byte.
-/

abbrev ByteMemory := Nat → BitVec 8

namespace BitArray

variable {memory : ByteMemory} {base index other address : Nat}

def byteAddress (base index : Nat) : Nat := base + index / 8

def mask (index : Nat) : BitVec 8 := 1#8 <<< (index % 8)

def test (memory : ByteMemory) (base index : Nat) : Bool :=
  memory (byteAddress base index) &&& mask index != 0#8

def set (memory : ByteMemory) (base index : Nat) : ByteMemory :=
  Function.update memory (byteAddress base index) (memory (byteAddress base index) ||| mask index)

def clear (memory : ByteMemory) (base index : Nat) : ByteMemory :=
  Function.update memory (byteAddress base index) (memory (byteAddress base index) &&& ~~~(mask index))

theorem mask_getLsbD (index bit : Nat) : (mask index).getLsbD bit = decide (bit = index % 8) := by
  have small : index % 8 < 8 := Nat.mod_lt _ (by decide)
  simp only [mask, BitVec.getLsbD_shiftLeft, BitVec.getLsbD_one]
  by_cases same : bit = index % 8
  · simp [same, small]
  · simp only [same, decide_false]
    by_cases below : bit < index % 8
    · simp [below]
    · have positive : bit - index % 8 ≠ 0 := by omega
      simp [positive]

theorem test_eq_getLsbD : test memory base index = (memory (byteAddress base index)).getLsbD (index % 8) := by
  have small : index % 8 < 8 := Nat.mod_lt _ (by decide)
  rw [test, Bool.eq_iff_iff, bne_iff_ne]
  constructor
  · intro nonzero
    by_contra notSet
    have unset := eq_false_of_ne_true notSet
    apply nonzero
    apply BitVec.eq_of_getLsbD_eq
    intro bit _
    rw [BitVec.getLsbD_and, mask_getLsbD, BitVec.getLsbD_zero]
    by_cases same : bit = index % 8
    · simp only [same, unset, decide_true, Bool.and_true]
    · simp only [same, decide_false, Bool.and_false]
  · intro isSet zero
    have bitZero := congrArg (fun byte => BitVec.getLsbD byte (index % 8)) zero
    simp only [BitVec.getLsbD_and, mask_getLsbD, isSet, decide_true, Bool.and_self,
      BitVec.getLsbD_zero, Bool.true_eq_false] at bitZero

theorem test_congr {before after : ByteMemory}
    (same : after (byteAddress base index) = before (byteAddress base index)) :
    test after base index = test before base index := by
  simp only [test, same]

theorem test_set : test (set memory base index) base other =
    (decide (other = index) || test memory base other) := by
  simp only [test_eq_getLsbD, set]
  by_cases sameByte : byteAddress base other = byteAddress base index
  · rw [sameByte, Function.update_self, BitVec.getLsbD_or, mask_getLsbD, Bool.or_comm]
    congr 1
    unfold byteAddress at sameByte
    have : other % 8 = index % 8 ↔ other = index := by omega
    simp only [this]
  · have different : other ≠ index := fun same => sameByte (by rw [same])
    rw [Function.update_of_ne sameByte]
    simp only [different, decide_false, Bool.false_or]

theorem test_clear : test (clear memory base index) base other =
    (decide (other ≠ index) && test memory base other) := by
  simp only [test_eq_getLsbD, clear]
  by_cases sameByte : byteAddress base other = byteAddress base index
  · have small : other % 8 < 8 := Nat.mod_lt _ (by decide)
    rw [sameByte, Function.update_self, BitVec.getLsbD_and, BitVec.getLsbD_not, mask_getLsbD,
      Bool.and_comm]
    unfold byteAddress at sameByte
    have : other % 8 = index % 8 ↔ other = index := by omega
    simp only [small, decide_true, Bool.true_and, this, decide_not]
  · have different : other ≠ index := fun same => sameByte (by rw [same])
    rw [Function.update_of_ne sameByte]
    simp only [ne_eq, different, not_false_eq_true, decide_true, Bool.true_and]

theorem set_frame (outside : address ≠ byteAddress base index) :
    set memory base index address = memory address := Function.update_of_ne outside _ _

theorem clear_frame (outside : address ≠ byteAddress base index) :
    clear memory base index address = memory address := Function.update_of_ne outside _ _

theorem test_of_zero (zero : memory (byteAddress base index) = 0#8) : test memory base index = false := by
  rw [test_eq_getLsbD, zero, BitVec.getLsbD_zero]

end BitArray

end Bwuhos.Data
