import Bwuhos.Pmm
import Mathlib.Data.List.Pairwise

namespace Bwuhos

open Bwuhos.Data

/-! # Geometry of the managed regions

`firstFree` is the only field of a region that ever changes, so a region is
identified by what `Bitmap.reset` leaves of it: the value `pmm_init` gave it.
-/

namespace Bitmap

def reset (bm : Bitmap) : Bitmap := { bm with firstFree := 0 }

@[simp] theorem reset_base (bm : Bitmap) : bm.reset.base = bm.base := rfl

@[simp] theorem reset_data (bm : Bitmap) : bm.reset.data = bm.data := rfl

@[simp] theorem reset_npage (bm : Bitmap) : bm.reset.npage = bm.npage := rfl

@[simp] theorem reset_frame (bm : Bitmap) (index : Nat) : bm.reset.frame index = bm.frame index := rfl

@[simp] theorem reset_contains (bm : Bitmap) (addr : Nat) : bm.reset.contains addr = bm.contains addr := rfl

/-- The bitmap ends before the page-aligned frames start, and the frames end at or below 2^64. -/
structure Placed (bm : Bitmap) : Prop where
  aligned : bm.base % 4096 = 0
  positive : 0 < bm.base
  bitmapFits : bm.data + (bm.npage + 7) / 8 ≤ bm.base
  ends : bm.base + 4096 * bm.npage ≤ 2 ^ 64

/-- Neither region reaches into the bitmap or the frames of the other. -/
def Apart (left right : Bitmap) : Prop :=
  left.base + 4096 * left.npage ≤ right.data ∨ right.base + 4096 * right.npage ≤ left.data

variable {bm left right : Bitmap} {index other addr : Nat}

theorem Placed.frame_eq (placed : bm.Placed) (bound : index < bm.npage) :
    bm.frame index = bm.base + 4096 * index := by
  have := placed.ends
  exact u64_of_lt (by unfold pageSize; omega)

theorem Placed.frame_inj (placed : bm.Placed) (bound : index < bm.npage) (otherBound : other < bm.npage)
    (same : bm.frame index = bm.frame other) : index = other := by
  rw [placed.frame_eq bound, placed.frame_eq otherBound] at same
  omega

theorem Placed.frame_aligned (placed : bm.Placed) (bound : index < bm.npage) :
    bm.frame index % 4096 = 0 := by
  have := placed.aligned
  rw [placed.frame_eq bound]
  omega

theorem Placed.frame_ne_null (placed : bm.Placed) (bound : index < bm.npage) :
    bm.frame index ≠ physAddrNull := by
  have := placed.positive
  rw [placed.frame_eq bound]
  unfold physAddrNull
  omega

/-- The bound of a region that ends at 2^64 wraps to zero, and then no address passes the test. -/
theorem Placed.contains_iff (placed : bm.Placed) : bm.contains addr = true ↔
    (bm.base ≤ addr ∧ addr < bm.base + 4096 * bm.npage) ∧ bm.base + 4096 * bm.npage < 2 ^ 64 := by
  have ends := placed.ends
  rw [contains, pageSize, Bool.and_eq_true, decide_eq_true_eq, decide_eq_true_eq]
  by_cases top : bm.base + 4096 * bm.npage = 2 ^ 64
  · have wrapped : u64 (bm.base + 4096 * bm.npage) = 0 := by rw [top]; rfl
    rw [wrapped]
    omega
  · rw [u64_of_lt (by omega)]
    omega

theorem Placed.contains_frame (placed : bm.Placed) (bound : index < bm.npage) :
    bm.contains (bm.frame index) = true ↔ bm.base + 4096 * bm.npage < 2 ^ 64 := by
  rw [placed.contains_iff, placed.frame_eq bound]
  omega

theorem Placed.frame_of_contains (placed : bm.Placed) (page : addr % 4096 = 0)
    (found : bm.contains addr = true) :
    (addr - bm.base) / pageSize < bm.npage ∧ addr = bm.frame ((addr - bm.base) / pageSize) := by
  have aligned := placed.aligned
  obtain ⟨range, _⟩ := placed.contains_iff.mp found
  have bound : (addr - bm.base) / pageSize < bm.npage := by unfold pageSize; omega
  refine ⟨bound, ?_⟩
  rw [placed.frame_eq bound]
  unfold pageSize
  omega

theorem Apart.symm (apart : Apart left right) : Apart right left := Or.symm apart

theorem Apart.frame_ne (apart : Apart left right) (leftPlaced : left.Placed) (rightPlaced : right.Placed)
    (bound : index < left.npage) (otherBound : other < right.npage) :
    left.frame index ≠ right.frame other := by
  have := leftPlaced.bitmapFits
  have := rightPlaced.bitmapFits
  rw [leftPlaced.frame_eq bound, rightPlaced.frame_eq otherBound]
  rcases apart with below | above <;> omega

theorem Apart.contains_false (apart : Apart left right) (leftPlaced : left.Placed)
    (rightPlaced : right.Placed) (found : left.contains addr = true) : right.contains addr = false := by
  have := leftPlaced.bitmapFits
  have := rightPlaced.bitmapFits
  obtain ⟨range, _⟩ := leftPlaced.contains_iff.mp found
  apply eq_false_of_ne_true
  intro alsoFound
  obtain ⟨otherRange, _⟩ := rightPlaced.contains_iff.mp alsoFound
  rcases apart with below | above <;> omega

theorem Apart.byte_ne (apart : Apart left right) (leftPlaced : left.Placed) (rightPlaced : right.Placed)
    (bound : index < left.npage) (otherBound : other < right.npage) :
    BitArray.byteAddress left.data index ≠ BitArray.byteAddress right.data other := by
  have := leftPlaced.bitmapFits
  have := rightPlaced.bitmapFits
  unfold BitArray.byteAddress
  rcases apart with below | above <;> omega

end Bitmap

/-- A list of regions that are placed in memory without sharing any byte. -/
structure Laid (regions : List Bitmap) : Prop where
  placed : ∀ bm ∈ regions, bm.Placed
  pairwise : regions.Pairwise Bitmap.Apart

namespace Laid

variable {regions : List Bitmap} {left right : Bitmap} {index other : Nat}

theorem apart (laid : Laid regions) (member : left ∈ regions) (otherMember : right ∈ regions) :
    left = right ∨ left.Apart right := by
  by_cases same : left = right
  · exact Or.inl same
  · have symmetric : Std.Symm Bitmap.Apart := ⟨fun _ _ => Bitmap.Apart.symm⟩
    exact Or.inr (laid.pairwise.forall member otherMember same)

theorem frame_inj (laid : Laid regions) (member : left ∈ regions) (otherMember : right ∈ regions)
    (bound : index < left.npage) (otherBound : other < right.npage)
    (same : left.frame index = right.frame other) : left = right ∧ index = other := by
  rcases laid.apart member otherMember with equal | apart
  · subst equal
    exact ⟨rfl, (laid.placed left member).frame_inj bound otherBound same⟩
  · exact absurd same
      (apart.frame_ne (laid.placed left member) (laid.placed right otherMember) bound otherBound)

/-- A region that the search finds for a frame is the region of the frame. -/
theorem contains_home (laid : Laid regions) (member : left ∈ regions) (otherMember : right ∈ regions)
    (bound : index < left.npage) (found : right.contains (left.frame index) = true) : left = right := by
  have aligned := (laid.placed left member).frame_aligned bound
  obtain ⟨within, same⟩ := (laid.placed right otherMember).frame_of_contains aligned found
  exact (laid.frame_inj member otherMember bound within same).1

theorem taken_set (laid : Laid regions) (mem : ByteMemory) (member : left ∈ regions) (otherMember : right ∈ regions)
    (bound : index < left.npage) (otherBound : other < right.npage) :
    right.taken (BitArray.set mem left.data index) other = true ↔
      right.frame other = left.frame index ∨ right.taken mem other = true := by
  rcases laid.apart member otherMember with equal | apart
  · subst equal
    have injective : left.frame other = left.frame index ↔ other = index :=
      ⟨(laid.placed left member).frame_inj otherBound bound, congrArg _⟩
    rw [Bitmap.taken, BitArray.test_set, Bool.or_eq_true, decide_eq_true_eq, injective, Bitmap.taken]
  · have leftPlaced := laid.placed left member
    have rightPlaced := laid.placed right otherMember
    have different := (apart.frame_ne leftPlaced rightPlaced bound otherBound).symm
    have kept : right.taken (BitArray.set mem left.data index) other = right.taken mem other :=
      BitArray.test_congr (BitArray.set_frame (apart.byte_ne leftPlaced rightPlaced bound otherBound).symm)
    simp only [kept, different, false_or]

theorem taken_clear (laid : Laid regions) (mem : ByteMemory) (member : left ∈ regions) (otherMember : right ∈ regions)
    (bound : index < left.npage) (otherBound : other < right.npage) :
    right.taken (BitArray.clear mem left.data index) other = true ↔
      right.frame other ≠ left.frame index ∧ right.taken mem other = true := by
  rcases laid.apart member otherMember with equal | apart
  · subst equal
    have injective : left.frame other = left.frame index ↔ other = index :=
      ⟨(laid.placed left member).frame_inj otherBound bound, congrArg _⟩
    rw [Bitmap.taken, BitArray.test_clear, Bool.and_eq_true, decide_eq_true_eq, ne_eq, ne_eq, injective,
      Bitmap.taken]
  · have leftPlaced := laid.placed left member
    have rightPlaced := laid.placed right otherMember
    have different := (apart.frame_ne leftPlaced rightPlaced bound otherBound).symm
    have kept : right.taken (BitArray.clear mem left.data index) other = right.taken mem other :=
      BitArray.test_congr (BitArray.clear_frame (apart.byte_ne leftPlaced rightPlaced bound otherBound).symm)
    simp only [kept, ne_eq, different, not_false_eq_true, true_and]

end Laid

section Layout

variable {ent : MemlEnt} {ents : List MemlEnt}

theorem pageBm_eq (usable : ent.Usable) :
    pageBm ent = {
      base := ent.base + 4096 * (1 + (7 * (ent.size / 4096) / 8 - 1) / 4096)
      data := ent.base
      npage := ent.size / 4096 - (1 + (7 * (ent.size / 4096) / 8 - 1) / 4096)
      firstFree := 0 } := by
  have large := usable.large
  have ends := usable.ends
  unfold pageSize at large
  have total : u64 (7 * (ent.size / 4096)) = 7 * (ent.size / 4096) := u64_of_lt (by omega)
  have bytes : u64Sub (7 * (ent.size / 4096) / 8) 1 = 7 * (ent.size / 4096) / 8 - 1 :=
    u64Sub_of_le (by omega) (by omega)
  have base : u64 (ent.base + 4096 * (1 + (7 * (ent.size / 4096) / 8 - 1) / 4096)) =
      ent.base + 4096 * (1 + (7 * (ent.size / 4096) / 8 - 1) / 4096) := u64_of_lt (by omega)
  have npage : u64Sub (ent.size / 4096) (1 + (7 * (ent.size / 4096) / 8 - 1) / 4096) =
      ent.size / 4096 - (1 + (7 * (ent.size / 4096) / 8 - 1) / 4096) := u64Sub_of_le (by omega) (by omega)
  simp only [pageBm, pageSize, total, bytes, base, npage]

theorem pageBm_placed (usable : ent.Usable) : (pageBm ent).Placed := by
  have aligned := usable.aligned
  have large := usable.large
  have ends := usable.ends
  unfold pageSize at aligned large
  rw [pageBm_eq usable]
  constructor <;> dsimp only <;> omega

theorem pageBm_inside (usable : ent.Usable) :
    (pageBm ent).data = ent.base ∧
      (pageBm ent).base + 4096 * (pageBm ent).npage ≤ ent.base + ent.size := by
  have large := usable.large
  unfold pageSize at large
  rw [pageBm_eq usable]
  constructor <;> dsimp only
  omega

theorem pageBm_apart {left right : MemlEnt} (leftUsable : left.Usable) (rightUsable : right.Usable)
    (disjoint : left.Disjoint right) : (pageBm left).Apart (pageBm right) := by
  obtain ⟨leftData, leftEnd⟩ := pageBm_inside leftUsable
  obtain ⟨rightData, rightEnd⟩ := pageBm_inside rightUsable
  unfold Bitmap.Apart
  rcases disjoint with below | above
  · left; omega
  · right; omega

theorem pageBms_laid (usable : ∀ ent ∈ ents, ent.Usable) (disjoint : ents.Pairwise MemlEnt.Disjoint) :
    Laid (ents.map pageBm) := by
  constructor
  · intro bm member
    obtain ⟨ent, entMember, rfl⟩ := List.mem_map.mp member
    exact pageBm_placed (usable ent entMember)
  · refine List.pairwise_map.mpr (disjoint.imp_of_mem fun leftMember rightMember apart => ?_)
    exact pageBm_apart (usable _ leftMember) (usable _ rightMember) apart

end Layout

end Bwuhos
