import Bwuhos.Data.Integers
import Mathlib.Logic.Function.Basic
import Mathlib.Tactic.Common

namespace Bwuhos.Data

/-! # Memory of a 64-bit machine

Bytes at 64-bit addresses, which wrap, and words of eight bytes with the lowest byte first.
-/

abbrev Ram := BitVec 64 → BitVec 8

namespace Ram

/-- The bytes by natural numbers, of which the lowest 64 bits count. -/
def cells (mem : Ram) : ByteMemory := fun cell => mem (.ofNat 64 cell)

def word (mem : Ram) (addr : BitVec 64) : BitVec 64 := .ofNat 64 (mem.cells.loadInt addr.toNat 8)

/-- `count` bytes stored from an address on. -/
def setBytes (mem : Ram) (addr : BitVec 64) (bytes : Nat → BitVec 8) (count : Nat) : Ram := fun pos =>
  if (pos - addr).toNat < count then bytes (pos - addr).toNat else mem pos

def setWord (mem : Ram) (addr value : BitVec 64) : Ram := mem.setBytes addr (ByteMemory.byteOf value.toNat) 8

variable {mem before after : Ram} {addr pos value : BitVec 64} {bytes : Nat → BitVec 8} {count index : Nat}

theorem ofNat_toNat_add (addr : BitVec 64) (index : Nat) :
    BitVec.ofNat 64 (addr.toNat + index) = addr + BitVec.ofNat 64 index := by
  rw [BitVec.ofNat_add, BitVec.ofNat_toNat, BitVec.setWidth_eq]

theorem offset_toNat (addr : BitVec 64) (bound : index < 2 ^ 64) :
    (addr + BitVec.ofNat 64 index - addr).toNat = index := by
  rw [BitVec.add_comm, BitVec.add_sub_cancel, BitVec.toNat_ofNat, Nat.mod_eq_of_lt bound]

theorem exists_offset (addr pos : BitVec 64) : ∃ offset < 2 ^ 64, pos = addr + BitVec.ofNat 64 offset := by
  refine ⟨(pos - addr).toNat, BitVec.isLt _, ?_⟩
  rw [BitVec.ofNat_toNat, BitVec.setWidth_eq, BitVec.add_comm, BitVec.sub_add_cancel]

theorem offset_inj {first second : Nat} (one : first < 2 ^ 64) (two : second < 2 ^ 64) :
    addr + BitVec.ofNat 64 first = addr + BitVec.ofNat 64 second ↔ first = second := by
  constructor
  · intro same
    rw [← offset_toNat addr one, same, offset_toNat addr two]
  · intro same
    rw [same]

theorem setBytes_apply (bound : index < 2 ^ 64) :
    mem.setBytes addr bytes count (addr + BitVec.ofNat 64 index) =
      if index < count then bytes index else mem (addr + BitVec.ofNat 64 index) := by
  rw [setBytes, offset_toNat addr bound]

theorem setBytes_byte (within : index < count) (bound : count ≤ 2 ^ 64) :
    mem.setBytes addr bytes count (addr + BitVec.ofNat 64 index) = bytes index :=
  (setBytes_apply (Nat.lt_of_lt_of_le within bound)).trans (if_pos within)

theorem setBytes_outside (outside : count ≤ (pos - addr).toNat) : mem.setBytes addr bytes count pos = mem pos :=
  if_neg (Nat.not_lt.mpr outside)

theorem word_byte (bound : index < 8) :
    ByteMemory.byteOf (mem.word addr).toNat index = mem (addr + BitVec.ofNat 64 index) := by
  have byte := @ByteMemory.byteOf_loadInt mem.cells addr.toNat 8 index bound
  rw [cells, ofNat_toNat_add] at byte
  have fits : mem.cells.loadInt addr.toNat 8 < 2 ^ 64 := ByteMemory.loadInt_lt mem.cells addr.toNat 8
  rw [word, BitVec.toNat_ofNat, Nat.mod_eq_of_lt fits, byte]

theorem word_congr (same : ∀ index < 8, after (addr + BitVec.ofNat 64 index) = before (addr + BitVec.ofNat 64 index)) :
    after.word addr = before.word addr := by
  rw [word, word]
  apply congrArg (BitVec.ofNat 64)
  apply ByteMemory.loadInt_congr
  intro index bound
  rw [cells, cells, ofNat_toNat_add]
  exact same index bound

theorem word_setWord : (mem.setWord addr value).word addr = value := by
  have stored : (mem.setWord addr value).cells.loadInt addr.toNat 8 = value.toNat % 2 ^ 64 := by
    apply ByteMemory.loadInt_of_bytes
    intro index bound
    rw [cells, ofNat_toNat_add, setWord, setBytes_byte bound (by decide)]
  rw [word, stored, Nat.mod_eq_of_lt value.isLt, BitVec.ofNat_toNat, BitVec.setWidth_eq]

/-- Words that do not meet are independent. -/
theorem word_setWord_apart {offset : Nat} (lower : 8 ≤ offset) (upper : offset + 8 ≤ 2 ^ 64) :
    (mem.setWord addr value).word (addr + BitVec.ofNat 64 offset) = mem.word (addr + BitVec.ofNat 64 offset) := by
  apply word_congr
  intro index bound
  apply setBytes_outside
  rw [BitVec.add_assoc, ← BitVec.ofNat_add, offset_toNat addr (by omega)]
  omega

theorem setBytes_zero : mem.setBytes addr bytes 0 = mem := by
  funext pos
  exact setBytes_outside (Nat.zero_le _)

theorem setBytes_succ (bound : count < 2 ^ 64) :
    Function.update (mem.setBytes addr bytes count) (addr + BitVec.ofNat 64 count) (bytes count) =
      mem.setBytes addr bytes (count + 1) := by
  funext pos
  obtain ⟨offset, within, rfl⟩ := exists_offset addr pos
  rw [Function.update_apply, setBytes_apply within, setBytes_apply within]
  simp only [offset_inj within bound]
  obtain before | rfl | behind := Nat.lt_trichotomy offset count
  · rw [if_neg (by omega), if_pos before, if_pos (by omega)]
  · rw [if_pos rfl, if_pos (by omega)]
  · rw [if_neg (by omega), if_neg (by omega), if_neg (by omega)]

theorem setBytes_setWord (bound : count + 8 ≤ 2 ^ 64)
    (same : ∀ index < 8, ByteMemory.byteOf value.toNat index = bytes (count + index)) :
    (mem.setBytes addr bytes count).setWord (addr + BitVec.ofNat 64 count) value =
      mem.setBytes addr bytes (count + 8) := by
  funext pos
  obtain ⟨offset, within, rfl⟩ := exists_offset (addr + BitVec.ofNat 64 count) pos
  rw [setWord, setBytes_apply within, BitVec.add_assoc, ← BitVec.ofNat_add]
  by_cases word : offset < 8
  · rw [if_pos word, same offset word, setBytes_byte (by omega) bound]
  · rw [if_neg word]
    -- offsets past the end of memory are those in front of the word
    obtain behind | wraps := Nat.lt_or_ge (count + offset) (2 ^ 64)
    · rw [setBytes_apply behind, setBytes_apply behind, if_neg (by omega), if_neg (by omega)]
    · have front : BitVec.ofNat 64 (count + offset) = BitVec.ofNat 64 (count + offset - 2 ^ 64) := by
        apply BitVec.eq_of_toNat_eq
        rw [BitVec.toNat_ofNat, BitVec.toNat_ofNat]
        omega
      rw [front, setBytes_byte (by omega) (by omega), setBytes_byte (by omega) bound]

end Ram

end Bwuhos.Data
