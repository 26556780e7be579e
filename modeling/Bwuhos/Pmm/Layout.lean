import Bwuhos.Pmm.Region
import Mathlib.Order.Interval.Set.Basic

namespace Bwuhos

open Bwuhos.Data

/-! # The regions of `pmm_init`

What the regions are like for any memory map, also for one that reaches the top of the
address space.
-/

/-- The pages that `pmm_init` takes from an entry for its bitmap. -/
def MemlEnt.npageBm (ent : MemlEnt) : Nat := 1 + u64Sub (u64 (7 * (ent.size / pageSize)) / 8) 1 / pageSize

def MemlEnt.bytes (ent : MemlEnt) : Set Nat := Set.Ico ent.base (ent.base + ent.size)

namespace Bitmap

/-- The bytes of the first pages of an entry, where the bitmap lies. -/
def bitmapPages (bm : Bitmap) (ent : MemlEnt) : Set Nat := Set.Ico bm.data (bm.data + pageSize * ent.npageBm)

def frames (bm : Bitmap) : Set Nat := Set.Ico bm.base (bm.base + pageSize * bm.npage)

/-- The region is laid out in the entry as it should be. -/
structure LaidOut (bm : Bitmap) (ent : MemlEnt) : Prop where
  nonempty : 0 < bm.npage
  noUnderflow : 1 ≤ u64 (7 * (ent.size / pageSize)) / 8 ∧ ent.npageBm ≤ ent.size / pageSize ∧
    bm.npage = ent.size / pageSize - ent.npageBm
  apart : ∀ addr ∈ bm.bitmapPages ent, addr ∉ bm.frames
  inside : bm.bitmapPages ent ∪ bm.frames ⊆ ent.bytes
  bitmap : ∀ index < bm.npage, BitArray.byteAddress bm.data index ∈ bm.bitmapPages ent
  indexed : ∀ addr, bm.contains addr = true → (addr - bm.base) / pageSize < bm.npage
  frame : ∀ index < bm.npage, bm.frame index ∈ bm.frames ∧ bm.frame index ≠ physAddrNull

variable {bm : Bitmap} {ent : MemlEnt}

theorem LaidOut.of_reset (laidOut : bm.reset.LaidOut ent) : bm.LaidOut ent := by
  obtain ⟨nonempty, noUnderflow, apart, inside, bitmap, indexed, frame⟩ := laidOut
  exact ⟨nonempty, noUnderflow, apart, inside, bitmap, indexed, frame⟩

/-- In a region that ends at the top of the address space the range test fails for every address. -/
theorem indexed_of_ends (ends : bm.base + pageSize * bm.npage ≤ 2 ^ 64) (addr : Nat)
    (found : bm.contains addr = true) : (addr - bm.base) / pageSize < bm.npage := by
  rw [contains, Bool.and_eq_true, decide_eq_true_eq, decide_eq_true_eq] at found
  have wrapped : u64 (bm.base + pageSize * bm.npage) ≤ bm.base + pageSize * bm.npage := Nat.mod_le _ _
  unfold pageSize at *
  omega

end Bitmap

section

variable {ent : MemlEnt} {ents : List MemlEnt}

theorem MemlEnt.npageBm_eq (usable : ent.Usable) : ent.npageBm = 1 + (7 * (ent.size / 4096) / 8 - 1) / 4096 := by
  have large := usable.large
  have ends := usable.ends
  unfold pageSize at large
  have total : u64 (7 * (ent.size / 4096)) = 7 * (ent.size / 4096) := u64_of_lt (by omega)
  rw [npageBm, pageSize, total, u64Sub_of_le (by omega) (by omega)]

/-- The bitmap takes some pages and leaves some, and has a bit for each page of the entry. -/
theorem MemlEnt.npageBm_bounds (usable : ent.Usable) : 1 ≤ ent.npageBm ∧ ent.npageBm < ent.size / 4096 ∧
    ent.size / 4096 ≤ 8 * (4096 * ent.npageBm) := by
  have large := usable.large
  unfold pageSize at large
  rw [npageBm_eq usable]
  omega

theorem pageBm_laidOut (usable : ent.Usable) : (pageBm ent).LaidOut ent := by
  have aligned := usable.aligned
  have large := usable.large
  have ends := usable.ends
  obtain ⟨positive, less, bits⟩ := MemlEnt.npageBm_bounds usable
  have pages := MemlEnt.npageBm_eq usable
  have region := pageBm_eq usable
  have data : (pageBm ent).data = ent.base := rfl
  have base : (pageBm ent).base = ent.base + 4096 * ent.npageBm := by rw [region, pages]
  have npage : (pageBm ent).npage = ent.size / 4096 - ent.npageBm := by rw [region, pages]
  have total : u64 (7 * (ent.size / 4096)) = 7 * (ent.size / 4096) := u64_of_lt (by omega)
  have top : (pageBm ent).base + 4096 * (pageBm ent).npage ≤ ent.base + ent.size := by omega
  unfold pageSize at aligned large
  clear pages region
  constructor
  · omega
  · simp only [pageSize, total]
    omega
  · intro addr first later
    rw [Bitmap.bitmapPages, Set.mem_Ico] at first
    rw [Bitmap.frames, Set.mem_Ico] at later
    unfold pageSize at first
    omega
  · intro addr member
    rw [MemlEnt.bytes, Set.mem_Ico]
    cases member with
    | inl first =>
        rw [Bitmap.bitmapPages, Set.mem_Ico] at first
        unfold pageSize at first
        omega
    | inr later =>
        rw [Bitmap.frames, Set.mem_Ico] at later
        unfold pageSize at later
        omega
  · intro index bound
    simp only [Bitmap.bitmapPages, Set.mem_Ico, BitArray.byteAddress, pageSize]
    omega
  · exact Bitmap.indexed_of_ends (top.trans ends)
  · intro index bound
    have address : (pageBm ent).frame index = (pageBm ent).base + 4096 * index := u64_of_lt (by unfold pageSize; omega)
    simp only [address, Bitmap.frames, Set.mem_Ico, pageSize, physAddrNull]
    omega

/-- The refill changes nothing about the regions but their hints. -/
theorem bmFeedRegions_reset (bms : List Bitmap) (mem : ByteMemory) (stk : List Nat) :
    (bmFeedRegions bms mem stk).1.map Bitmap.reset = bms.map Bitmap.reset := by
  induction bms generalizing mem stk with
  | nil => rfl
  | cons bm rest ih =>
      unfold bmFeedRegions
      split
      · simp only [List.map_cons, ih]
        rfl
      · rfl

theorem pmmInit_regions (ents : List MemlEnt) (mem : ByteMemory) :
    (pmmInit ents mem).pageBms.map Bitmap.reset = ents.map pageBm := by
  refine (bmFeedRegions_reset _ mem []).trans ?_
  rw [List.map_map]
  exact List.map_congr_left fun _ _ => rfl

/-- In any memory map whose usable entries are page-aligned and end at or below 2^64, each
entry that `meml_init` keeps gets a region with its bitmap and at least one frame inside. -/
theorem pmm_init_laid_out (usable : UInt64) (response : List LimineMemmapEntry)
    (placed : ∀ lmnEnt ∈ response, lmnEnt.type = usable →
      lmnEnt.base.toNat % pageSize = 0 ∧ lmnEnt.base.toNat + lmnEnt.length.toNat ≤ 2 ^ 64) (mem : ByteMemory) :
    (memlInit usable response).2.length ≤ memlMaxEnts ∧
    (pmmInit (memlInit usable response).2 mem).pageBms.length = (memlInit usable response).2.length ∧
    ∀ (index : Nat) (bm : Bitmap), (pmmInit (memlInit usable response).2 mem).pageBms[index]? = some bm →
      ∃ ent, (memlInit usable response).2[index]? = some ent ∧ bm.LaidOut ent := by
  have kept : ∀ ent ∈ (memlInit usable response).2, ent.Usable :=
    memlCollect_usable placed fun ent member => absurd member List.not_mem_nil
  have few : (memlInit usable response).2.length ≤ memlMaxEnts := memlCollect_length (Nat.zero_le _)
  generalize (memlInit usable response).2 = ents at kept few
  have regions := pmmInit_regions ents mem
  have lengths := congrArg List.length regions
  rw [List.length_map, List.length_map] at lengths
  refine ⟨few, lengths, fun index bm there => ?_⟩
  have reset := congrArg (fun bms => bms[index]?) regions
  simp only [List.getElem?_map, there, Option.map_some] at reset
  obtain ⟨ent, found, same⟩ := Option.map_eq_some_iff.mp reset.symm
  refine ⟨ent, found, Bitmap.LaidOut.of_reset ?_⟩
  rw [← same]
  exact pageBm_laidOut (kept ent (List.mem_of_getElem? found))

end

/-- The last megabyte of the address space. -/
def topEntry : LimineMemmapEntry where
  base := 0xfffffffffff00000
  length := 0x100000
  type := 0

theorem pmm_init_laid_out_top : ∃ bm, (pmmInit (memlInit 0 [topEntry]).2 fun _ => 0#8).pageBms[0]? = some bm ∧
    0 < bm.npage ∧ ∀ index < bm.npage, bm.frame index ≠ physAddrNull := by
  obtain ⟨_, length, laidOut⟩ := pmm_init_laid_out 0 [topEntry] (fun lmnEnt member _ => by
    rw [List.mem_singleton.mp member]
    decide) fun _ => 0#8
  have one : (memlInit 0 [topEntry]).2.length = 1 := by decide
  have there := List.getElem?_eq_getElem (show 0 < (pmmInit (memlInit 0 [topEntry]).2 fun _ => 0#8).pageBms.length by
    rw [length, one]
    decide)
  obtain ⟨ent, _, region⟩ := laidOut 0 _ there
  exact ⟨_, there, region.nonempty, fun index bound => (region.frame index bound).2⟩

end Bwuhos
