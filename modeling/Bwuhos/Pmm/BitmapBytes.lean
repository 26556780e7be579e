import Bwuhos.Pmm.Ownership

namespace Bwuhos

open Bwuhos.Data

/-! # Memory that the allocator leaves alone

`pmm.c` writes to the bytes of its bitmaps only, and what is written to any other byte
makes no difference to it.
-/

def InBitmaps (regions : List Bitmap) (addr : Nat) : Prop :=
  ∃ bm ∈ regions, ∃ index < bm.npage, addr = BitArray.byteAddress bm.data index

variable {regions bms : List Bitmap} {bm : Bitmap} {pmm : Pmm} {out : Finset Nat} {mem : ByteMemory} {addr : Nat}

theorem bmFeedPages_outside (count index : Nat) (mem : ByteMemory) (stk : List Nat) (inside : index + count ≤ bm.npage)
    (outside : ∀ position < bm.npage, addr ≠ BitArray.byteAddress bm.data position) :
    (bmFeedPages bm count index mem stk).1 addr = mem addr := by
  induction count generalizing index mem stk with
  | zero => rfl
  | succ count ih =>
      have here : (if bm.taken mem index then (mem, stk)
          else (BitArray.set mem bm.data index, bm.frame index :: stk)).1 addr = mem addr := by
        split
        · rfl
        · exact BitArray.set_frame (outside index (by omega))
      unfold bmFeedPages
      generalize (if bm.taken mem index then (mem, stk)
        else (BitArray.set mem bm.data index, bm.frame index :: stk)) = fed at here
      dsimp only
      split
      · exact here
      · rw [ih (index + 1) _ _ (by omega), here]

theorem bmFeedRegion_outside (mem : ByteMemory) (stk : List Nat)
    (outside : ∀ position < bm.npage, addr ≠ BitArray.byteAddress bm.data position) :
    (bmFeedRegion bm mem stk).2.1 addr = mem addr := by
  unfold bmFeedRegion
  by_cases inside : bm.firstFree ≤ bm.npage
  · exact bmFeedPages_outside _ _ mem stk (by omega) outside
  · rw [Nat.sub_eq_zero_of_le (by omega)]
    rfl

theorem bmFeedRegions_outside (bms : List Bitmap) (mem : ByteMemory) (stk : List Nat) (outside : ¬InBitmaps bms addr) :
    (bmFeedRegions bms mem stk).2.1 addr = mem addr := by
  induction bms generalizing mem stk with
  | nil => rfl
  | cons bm rest ih =>
      have here : ∀ position < bm.npage, addr ≠ BitArray.byteAddress bm.data position :=
        fun position bound same => outside ⟨bm, List.mem_cons_self, position, bound, same⟩
      have others : ¬InBitmaps rest addr := fun ⟨other, member, position, bound, same⟩ =>
        outside ⟨other, List.mem_cons_of_mem _ member, position, bound, same⟩
      unfold bmFeedRegions
      split
      · exact (ih _ _ others).trans (bmFeedRegion_outside mem stk here)
      · rfl

theorem pmmAlloc_outside (pmm : Pmm) (outside : ¬InBitmaps pmm.pageBms addr) :
    (pmmAlloc pmm).2.mem addr = pmm.mem addr := by
  have fed : (if pmm.pageStk.isEmpty then bmFeedStk pmm else pmm).mem addr = pmm.mem addr := by
    split
    · exact bmFeedRegions_outside pmm.pageBms pmm.mem pmm.pageStk outside
    · rfl
  unfold pmmAlloc
  dsimp only
  split
  · exact fed
  · exact fed

namespace Owned

theorem inBitmaps_iff (owned : Owned regions pmm out) : InBitmaps pmm.pageBms addr ↔ InBitmaps regions addr := by
  constructor
  · rintro ⟨bm, member, index, bound, same⟩
    exact ⟨bm.reset, owned.member member, index, bound, same⟩
  · rintro ⟨bm, member, index, bound, same⟩
    rw [← owned.geometry] at member
    obtain ⟨old, inList, rfl⟩ := List.mem_map.mp member
    exact ⟨old, inList, index, bound, same⟩

/-- Who owns a frame does not depend on memory outside the bitmaps. -/
theorem withMem (owned : Owned regions pmm out) (same : ∀ addr, InBitmaps regions addr → mem addr = pmm.mem addr) :
    Owned regions { pmm with mem } out := by
  have taken : ∀ bm ∈ regions, ∀ index < bm.npage, bm.taken mem index = bm.taken pmm.mem index :=
    fun bm member index bound => BitArray.test_congr (same _ ⟨bm, member, index, bound, rfl⟩)
  refine ⟨owned.geometry, ?_, ?_, owned.managed, owned.nodup, owned.apart, owned.capped⟩
  · intro bm member index below bound
    exact (taken bm.reset (owned.member member) index bound).trans (owned.hints bm member index below bound)
  · intro bm member index bound
    rw [taken bm member index bound]
    exact owned.bits bm member index bound

end Owned

/-- The page frames lie outside all bitmaps. -/
theorem Laid.frame_outside (laid : Laid regions) (member : bm ∈ regions) {index : Nat} (bound : index < bm.npage)
    (inFrame : bm.frame index ≤ addr ∧ addr < bm.frame index + 4096) : ¬InBitmaps regions addr := by
  rintro ⟨other, otherMember, position, within, same⟩
  have placed := laid.placed bm member
  have otherPlaced := laid.placed other otherMember
  have fits := placed.bitmapFits
  have otherFits := otherPlaced.bitmapFits
  rw [placed.frame_eq bound] at inFrame
  unfold BitArray.byteAddress at same
  rcases laid.apart member otherMember with equal | apart
  · subst equal
    omega
  · rcases apart with below | above <;> omega

end Bwuhos
