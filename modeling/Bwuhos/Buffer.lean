import Mathlib.Data.List.Basic

namespace Bwuhos

/-! # Buffers

Byte buffers of the kernel heap and of the stack, and the ways in which a call can go
wrong without returning.
-/

/-- Why a call does not return. -/
inductive Stop where
  | outOfFuel
  | nullDeref
  | outOfBounds
  | divByZero
deriving Repr, DecidableEq

abbrev Buffer := Option (List UInt8)

/-- What the storage code gets from the rest of the kernel: memory from `kheap_alloc`,
which holds arbitrary bytes, or null, arbitrary bytes in uninitialised locals, and the
bytes that lie in memory behind the end of a buffer. -/
structure Platform (World : Type) where
  kheapAlloc : (size : Nat) → World → Option { bytes : List UInt8 // bytes.length = size } × World
  uninit : (size : Nat) → World → { bytes : List UInt8 // bytes.length = size }
  beyond : World → Nat → UInt8

namespace Platform

variable {World : Type}

def alloc (platform : Platform World) (size : Nat) (world : World) : Buffer × World :=
  ((platform.kheapAlloc size world).1.map Subtype.val, (platform.kheapAlloc size world).2)

def zeroed : Platform World where
  kheapAlloc size world := (some ⟨List.replicate size 0, List.length_replicate⟩, world)
  uninit size _ := ⟨List.replicate size 0, List.length_replicate⟩
  beyond _ _ := 0

end Platform

/-- A kernel heap without a free page. -/
def exhausted : Platform Unit := { Platform.zeroed with kheapAlloc := fun _ world => (none, world) }

namespace Buffer

def write (buf : Buffer) (data : List UInt8) : Except Stop Buffer :=
  match data, buf with
  | [], _ => .ok buf
  | _, none => .error .nullDeref
  | _, some bytes =>
      if data.length ≤ bytes.length then .ok (some (data ++ bytes.drop data.length))
      else .error .outOfBounds

/-- `*((uint16_t *)buf + index) = word`. -/
def store16 (buf : Buffer) (index : Nat) (word : UInt16) : Except Stop Buffer :=
  match buf with
  | none => .error .nullDeref
  | some bytes =>
      if 2 * index + 2 ≤ bytes.length then
        .ok (some (bytes.take (2 * index) ++ [word.toUInt8, (word >>> 8).toUInt8] ++ bytes.drop (2 * index + 2)))
      else .error .outOfBounds

/-- `ku_memcpy(dst, &buf[off], n)`, which reads on behind the end of a short buffer. -/
def memcpy (beyond : Nat → UInt8) (buf : Buffer) (off n : Nat) : Except Stop (List UInt8) :=
  match buf with
  | none => .error .nullDeref
  | some bytes =>
      .ok ((List.range n).map fun index => bytes[off + index]?.getD (beyond (off + index - bytes.length)))

@[simp] theorem write_nil (buf : Buffer) : write buf [] = .ok buf := by
  cases buf <;> rfl

theorem write_full {bytes data : List UInt8} (full : data.length = bytes.length) :
    write (some bytes) data = .ok (some data) := by
  cases data with
  | nil =>
      have empty : bytes = [] := List.length_eq_zero_iff.mp full.symm
      rw [empty]
      rfl
  | cons first rest =>
      rw [write, if_pos (Nat.le_of_eq full), List.drop_eq_nil_of_le (Nat.le_of_eq full.symm), List.append_nil]
      all_goals simp

theorem write_length {bytes data : List UInt8} {after : Buffer} (written : write (some bytes) data = .ok after) :
    ∃ filled, after = some filled ∧ filled.length = bytes.length := by
  cases data with
  | nil => exact ⟨bytes, (Except.ok.inj written).symm, rfl⟩
  | cons first rest =>
      simp only [write] at written
      split at written
      case isTrue fits =>
        refine ⟨_, (Except.ok.inj written).symm, ?_⟩
        rw [List.length_append, List.length_drop]
        omega
      case isFalse => cases written

theorem write_null {buf after : Buffer} {data : List UInt8} (written : write buf data = .ok after) :
    after = none ↔ buf = none := by
  cases data with
  | nil => rw [← Except.ok.inj written]
  | cons first rest =>
      cases buf with
      | none => cases written
      | some bytes =>
          obtain ⟨filled, rfl, _⟩ := write_length written
          exact iff_of_false (Option.some_ne_none _) (Option.some_ne_none _)

theorem memcpy_inside {bytes : List UInt8} {off n : Nat} (beyond : Nat → UInt8) (inside : off + n ≤ bytes.length) :
    memcpy beyond (some bytes) off n = .ok ((bytes.drop off).take n) := by
  refine congrArg Except.ok (List.ext_getElem ?_ fun index left right => ?_)
  · simp only [List.length_map, List.length_range, List.length_take, List.length_drop]
    omega
  · have bound : index < n := by simpa using left
    simp only [List.getElem_map, List.getElem_range, List.getElem_take, List.getElem_drop,
      List.getElem?_eq_getElem (show off + index < bytes.length by omega), Option.getD_some]

end Buffer

end Bwuhos
