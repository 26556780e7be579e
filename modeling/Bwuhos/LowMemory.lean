import Bwuhos.Buffer
import Bwuhos.Data.Loop

namespace Bwuhos

open Bwuhos.Data

/-! # Null pointers

`paging_create_map` maps the first megabyte at address 0, so a null pointer of `kheap_alloc`
points to memory.
-/

/-- Memory from address 0 on. -/
abbrev LowMemory := Nat → UInt8

namespace Buffer

/-- What lies in a buffer of the given size. -/
def bytes (buf : Buffer) (low : LowMemory) (size : Nat) : List UInt8 := buf.getD ((List.range size).map low)

def store (buf : Buffer) (data : List UInt8) (low : LowMemory) : Except Stop (Buffer × LowMemory) :=
  match buf with
  | none => .ok (none, fun pos => data[pos]?.getD (low pos))
  | some bytes => do
      let filled ← Buffer.write (some bytes) data
      return (filled, low)

def load (beyond : Nat → UInt8) (buf : Buffer) (off n : Nat) (low : LowMemory) : Except Stop (List UInt8) :=
  match buf with
  | none => .ok ((List.range n).map fun index => low (off + index))
  | some bytes => Buffer.memcpy beyond (some bytes) off n

/-- `*((uint16_t *)buf + index) = word`. -/
def store16Low (buf : Buffer) (index : Nat) (word : UInt16) (low : LowMemory) : Except Stop (Buffer × LowMemory) :=
  match buf with
  | none =>
      .ok (none, fun pos =>
        if pos = 2 * index then word.toUInt8 else if pos = 2 * index + 1 then (word >>> 8).toUInt8 else low pos)
  | some bytes => do
      let filled ← Buffer.store16 (some bytes) index word
      return (filled, low)

/-- A buffer of its caller has room for so many bytes. -/
def Room (buf : Buffer) (size : Nat) : Prop := ∀ bytes, buf = some bytes → size ≤ bytes.length

/-- What writes through a pointer change: bytes of the buffer, or the first ones of memory. -/
inductive Overwrites (size : Nat) : Buffer → LowMemory → Buffer → LowMemory → Prop
  | null {low after : LowMemory} (above : ∀ pos, size ≤ pos → after pos = low pos) :
      Overwrites size none low none after
  | held {bytes filled : List UInt8} {low : LowMemory} (length : filled.length = bytes.length) :
      Overwrites size (some bytes) low (some filled) low

namespace Overwrites

variable {size : Nat} {buf middle filled : Buffer} {low between after : LowMemory}

theorem refl (size : Nat) (buf : Buffer) (low : LowMemory) : Overwrites size buf low buf low := by
  cases buf with
  | none => exact .null fun _ _ => rfl
  | some bytes => exact .held rfl

theorem trans (first : Overwrites size buf low middle between) (second : Overwrites size middle between filled after) :
    Overwrites size buf low filled after := by
  cases first with
  | null above =>
      cases second with
      | null again => exact .null fun pos bound => (again pos bound).trans (above pos bound)
  | held length =>
      cases second with
      | held same => exact .held (same.trans length)

theorem room {need : Nat} (overwrites : Overwrites size buf low filled after) (room : buf.Room need) :
    filled.Room need := by
  cases overwrites with
  | null above => exact room
  | held length =>
      rintro _ ⟨rfl⟩
      exact Nat.le_trans (room _ rfl) (Nat.le_of_eq length.symm)

theorem present (overwrites : Overwrites size buf low filled after) (there : buf ≠ none) : filled ≠ none := by
  cases overwrites with
  | null above => exact there
  | held length => exact Option.some_ne_none _

end Overwrites

theorem store16Low_present {buf filled : Buffer} {index : Nat} {word : UInt16} {low after : LowMemory}
    (there : buf ≠ none) (stored : buf.store16Low index word low = .ok (filled, after)) :
    buf.store16 index word = .ok filled := by
  cases buf with
  | none => exact absurd rfl there
  | some bytes =>
      obtain ⟨_, wrote, finished⟩ := bind_eq_ok stored
      cases finished
      exact wrote

theorem store16Low_fails {buf : Buffer} {index : Nat} {word : UInt16} {low : LowMemory} {stop : Stop}
    (failed : buf.store16Low index word low = .error stop) : stop = .outOfBounds := by
  cases buf with
  | none => cases failed
  | some bytes =>
      simp only [store16Low, store16] at failed
      split at failed
      · cases failed
      · cases failed
        rfl

theorem store16Low_room {buf : Buffer} {index : Nat} (word : UInt16) (low : LowMemory)
    (room : buf.Room (2 * index + 2)) : ∃ filled, buf.store16Low index word low = .ok filled := by
  cases buf with
  | none => exact ⟨_, rfl⟩
  | some bytes =>
      rw [store16Low, store16, if_pos (room bytes rfl)]
      exact ⟨_, rfl⟩

theorem store16Low_overwrites {buf filled : Buffer} {index size : Nat} {word : UInt16} {low after : LowMemory}
    (inside : 2 * index + 2 ≤ size) (stored : buf.store16Low index word low = .ok (filled, after)) :
    Overwrites size buf low filled after := by
  cases buf with
  | none =>
      cases stored
      refine .null fun pos bound => ?_
      rw [if_neg (by omega), if_neg (by omega)]
  | some bytes =>
      obtain ⟨_, wrote, finished⟩ := bind_eq_ok stored
      cases finished
      simp only [store16] at wrote
      split at wrote
      · next fits =>
          cases wrote
          refine .held ?_
          simp only [List.length_append, List.length_take, List.length_drop, List.length_cons, List.length_nil]
          omega
      · cases wrote

theorem store_nil (buf : Buffer) (low : LowMemory) : buf.store [] low = .ok (buf, low) := by
  cases buf <;> rfl

theorem store_written {buf filled : Buffer} {data : List UInt8} (low : LowMemory)
    (written : buf.write data = .ok filled) : buf.store data low = .ok (filled, low) := by
  cases buf with
  | some bytes => rw [store, written]; rfl
  | none =>
      cases data with
      | nil => cases written; rfl
      | cons first rest => cases written

theorem load_copied {beyond : Nat → UInt8} {buf : Buffer} {off n : Nat} {dst : List UInt8} (low : LowMemory)
    (copied : buf.memcpy beyond off n = .ok dst) : buf.load beyond off n low = .ok dst := by
  cases buf with
  | none => cases copied
  | some bytes => exact copied

theorem bytes_null (low : LowMemory) (size : Nat) : (Buffer.bytes none low size).length = size := by
  simp [bytes]

/-- A store keeps the size of a buffer, and touches low memory only through null. -/
theorem store_kept {buf filled : Buffer} {data : List UInt8} {low after : LowMemory} {size : Nat}
    (stored : buf.store data low = .ok (filled, after)) (sized : (buf.bytes low size).length = size) :
    (filled.bytes after size).length = size ∧ (buf ≠ none → after = low) := by
  cases buf with
  | none =>
      cases stored
      exact ⟨bytes_null _ size, fun present => absurd rfl present⟩
  | some held =>
      obtain ⟨written, wrote, finished⟩ := bind_eq_ok stored
      cases finished
      obtain ⟨_, rfl, length⟩ := write_length wrote
      exact ⟨length.trans sized, fun _ => rfl⟩

theorem store_full {buf : Buffer} {data : List UInt8} {low : LowMemory} {size : Nat} (full : data.length = size)
    (sized : (buf.bytes low size).length = size) : ∃ filled after, buf.store data low = .ok (filled, after) ∧
      filled.bytes after size = data := by
  cases buf with
  | some bytes =>
      have length : data.length = bytes.length := full.trans sized.symm
      exact ⟨some data, low, by rw [store, write_full length]; rfl, rfl⟩
  | none =>
      refine ⟨none, _, rfl, ?_⟩
      rw [bytes, Option.getD_none, ← full]
      refine List.ext_getElem (by simp) fun index left right => ?_
      simp [List.getElem?_eq_getElem right]

theorem load_inside {beyond : Nat → UInt8} {buf : Buffer} {low : LowMemory} {off n size : Nat}
    (sized : (buf.bytes low size).length = size) (inside : off + n ≤ size) :
    buf.load beyond off n low = .ok (((buf.bytes low size).drop off).take n) := by
  cases buf with
  | some bytes => exact memcpy_inside beyond (Nat.le_trans inside (Nat.le_of_eq sized.symm))
  | none =>
      refine congrArg Except.ok (List.ext_getElem ?_ fun index left right => ?_)
      · simp [bytes]
        omega
      · simp [bytes]

theorem Overwrites.stored {size : Nat} {buf filled : Buffer} {low after : LowMemory}
    (overwrites : Overwrites size buf low filled after) : ∃ data, buf.store data low = .ok (filled, after) := by
  cases overwrites with
  | null above =>
      refine ⟨(List.range size).map after, congrArg Except.ok (Prod.ext rfl (funext fun pos => ?_))⟩
      by_cases bound : pos < size
      · simp [bound]
      · simp [bound, above pos (Nat.le_of_not_lt bound)]
  | @held bytes filled _ length => exact ⟨filled, by rw [store, write_full length]; rfl⟩

end Buffer

end Bwuhos
