import Bwuhos.Data.BitArray
import Mathlib.Algebra.Group.Nat.Defs

namespace Bwuhos.Data.ByteMemory

/-! # Integers in byte memory

Unsigned little-endian integers of `width` bytes, stored one at a time or filled in.
-/

def byteOf (value position : Nat) : BitVec 8 := .ofNat 8 (value / 256 ^ position)

def loadInt (memory : ByteMemory) (addr : Nat) : (width : Nat) → Nat
  | 0 => 0
  | width + 1 => (memory addr).toNat + 256 * loadInt memory (addr + 1) width

def storeInt (memory : ByteMemory) (addr width value : Nat) : ByteMemory := fun cell =>
  if addr ≤ cell ∧ cell < addr + width then byteOf value (cell - addr) else memory cell

/-- `count` copies of an integer from `addr` on. -/
def fillInts (memory : ByteMemory) (addr width value count : Nat) : ByteMemory := fun cell =>
  if addr ≤ cell ∧ cell < addr + width * count then byteOf value ((cell - addr) % width) else memory cell

variable {memory before after : ByteMemory} {addr other width value count index cell : Nat}

theorem byteOf_succ (value position : Nat) : byteOf value (position + 1) = byteOf (value / 256) position := by
  rw [byteOf, byteOf, Nat.pow_succ', Nat.div_div_eq_div_mul]

theorem loadInt_moved (same : ∀ position < width, after (other + position) = before (addr + position)) :
    after.loadInt other width = before.loadInt addr width := by
  induction width generalizing addr other with
  | zero => rfl
  | succ width ih =>
      have first := same 0 (Nat.succ_pos _)
      have rest := @ih (addr + 1) (other + 1) fun position bound => by
        have next := same (position + 1) (Nat.succ_lt_succ bound)
        rwa [Nat.add_comm position, ← Nat.add_assoc, ← Nat.add_assoc] at next
      rw [loadInt, loadInt, rest]
      exact congrArg (fun byte : BitVec 8 => byte.toNat + _) first

theorem loadInt_congr (same : ∀ position < width, after (addr + position) = before (addr + position)) :
    after.loadInt addr width = before.loadInt addr width := loadInt_moved same

theorem loadInt_of_bytes (bytes : ∀ position < width, memory (addr + position) = byteOf value position) :
    memory.loadInt addr width = value % 256 ^ width := by
  induction width generalizing addr value with
  | zero => exact (Nat.mod_one value).symm
  | succ width ih =>
      have first : memory addr = byteOf value 0 := bytes 0 (Nat.succ_pos _)
      have rest : memory.loadInt (addr + 1) width = value / 256 % 256 ^ width := by
        refine ih fun position bound => ?_
        rw [← byteOf_succ, Nat.add_assoc, Nat.add_comm 1]
        exact bytes (position + 1) (Nat.succ_lt_succ bound)
      rw [loadInt, first, rest, Nat.pow_succ', Nat.mod_mul, byteOf, BitVec.toNat_ofNat, Nat.pow_zero, Nat.div_one]

theorem loadInt_lt (memory : ByteMemory) (addr width : Nat) : memory.loadInt addr width < 256 ^ width := by
  induction width generalizing addr with
  | zero => exact Nat.one_pos
  | succ width ih =>
      have byte := (memory addr).isLt
      have rest := ih (addr + 1)
      rw [loadInt, Nat.pow_succ']
      omega

theorem byteOf_loadInt {position : Nat} (bound : position < width) :
    byteOf (memory.loadInt addr width) position = memory (addr + position) := by
  induction width generalizing addr position with
  | zero => exact absurd bound (Nat.not_lt_zero _)
  | succ width ih =>
      have byte := (memory addr).isLt
      cases position with
      | zero =>
          rw [Nat.add_zero addr, byteOf, loadInt, Nat.pow_zero, Nat.div_one]
          apply BitVec.eq_of_toNat_eq
          rw [BitVec.toNat_ofNat]
          omega
      | succ position =>
          have above : ((memory addr).toNat + 256 * memory.loadInt (addr + 1) width) / 256 =
              memory.loadInt (addr + 1) width := by omega
          rw [byteOf_succ, loadInt, above, ih (Nat.lt_of_succ_lt_succ bound), Nat.add_assoc, Nat.add_comm 1]

theorem storeInt_outside (outside : ¬(addr ≤ cell ∧ cell < addr + width)) :
    memory.storeInt addr width value cell = memory cell := if_neg outside

theorem loadInt_storeInt : (memory.storeInt addr width value).loadInt addr width = value % 256 ^ width := by
  refine loadInt_of_bytes fun position bound => ?_
  rw [storeInt, if_pos ⟨Nat.le_add_right _ _, Nat.add_lt_add_left bound _⟩, Nat.add_sub_cancel_left]

theorem loadInt_storeInt_apart (apart : other + width ≤ addr ∨ addr + width ≤ other) :
    (memory.storeInt addr width value).loadInt other width = memory.loadInt other width :=
  loadInt_congr fun position bound => storeInt_outside (by omega)

theorem fillInts_outside (outside : ¬(addr ≤ cell ∧ cell < addr + width * count)) :
    memory.fillInts addr width value count cell = memory cell := if_neg outside

theorem loadInt_fillInts (bound : index < count) :
    (memory.fillInts addr width value count).loadInt (addr + width * index) width = value % 256 ^ width := by
  refine loadInt_of_bytes fun position within => ?_
  have last : width * index + width ≤ width * count := by
    rw [← Nat.mul_succ]
    exact Nat.mul_le_mul_left width bound
  have offset : addr + width * index + position - addr = position + width * index := by omega
  rw [fillInts, if_pos ⟨by omega, by omega⟩, offset, Nat.add_mul_mod_self_left, Nat.mod_eq_of_lt within]

theorem loadInt_fillInts_apart (apart : other + width ≤ addr ∨ addr + width * count ≤ other) :
    (memory.fillInts addr width value count).loadInt other width = memory.loadInt other width :=
  loadInt_congr fun position bound => fillInts_outside (by omega)

end Bwuhos.Data.ByteMemory
