import Bwuhos.Pmm.Runs

namespace Bwuhos

open Bwuhos.Data

/-! # Bits that memory held before

`pmm_init` lays its bitmaps in memory that it does not clear.
-/

/-- The set bits are those of the pages on the stack, and every other page can be allocated. -/
structure BitmapsInitialised (ents : List MemlEnt) (pmm : Pmm) : Prop where
  exactly : ∀ page, BitSet ents pmm.mem page ↔ page ∈ pmm.pageStk
  allocatable : ∀ page ∈ managedPages ents, page ∉ pmm.pageStk → ∃ pages, Drains pmmTake pmm pages ∧ page ∈ pages

variable {ents : List MemlEnt} {mem : ByteMemory} {page : Nat}

theorem bitSet_iff_stale : BitSet ents mem page ↔ page ∈ staleFrames ents mem := by
  rw [mem_staleFrames]
  constructor
  · rintro ⟨ent, member, index, bound, same, set⟩
    exact ⟨pageBm ent, List.mem_map_of_mem member, index, bound, set, same⟩
  · rintro ⟨bm, member, index, bound, set, same⟩
    obtain ⟨ent, inEnts, rfl⟩ := List.mem_map.mp member
    exact ⟨ent, inEnts, index, bound, same, set⟩

theorem Owned.bitSet_iff {pmm : Pmm} {out : Finset Nat} (owned : Owned (ents.map pageBm) pmm out) :
    BitSet ents pmm.mem page ↔ page ∈ pmm.pageStk ∨ page ∈ out := by
  constructor
  · rintro ⟨ent, member, index, bound, rfl, set⟩
    exact (owned.bits _ (List.mem_map_of_mem member) index bound).mp set
  · intro owner
    obtain ⟨bm, member, index, bound, rfl⟩ := owned.managed page owner
    obtain ⟨ent, inEnts, rfl⟩ := List.mem_map.mp member
    exact ⟨ent, inEnts, index, bound, rfl, (owned.bits _ member index bound).mpr owner⟩

/-- The bitmaps are right after `pmm_init` exactly when memory held no bit of a managed page. -/
theorem pmmInit_bitmaps_iff (ents : List MemlEnt) (mem : ByteMemory) (usable : ∀ ent ∈ ents, ent.Usable)
    (disjoint : ents.Pairwise MemlEnt.Disjoint) :
    BitmapsInitialised ents (pmmInit ents mem) ↔ ∀ page, ¬BitSet ents mem page := by
  have laid := pageBms_laid usable disjoint
  have owned : Owned (ents.map pageBm) (pmmInit ents mem) (staleFrames ents mem) := .initStale laid
  constructor
  · intro initialised page set
    have stale := bitSet_iff_stale.mp set
    have onStack := (initialised.exactly page).mp (owned.bitSet_iff.mpr (Or.inr stale))
    exact owned.apart page onStack stale
  · intro clear
    have none : staleFrames ents mem = ∅ :=
      Finset.eq_empty_of_forall_notMem fun page stale => clear page (bitSet_iff_stale.mpr stale)
    rw [none] at owned
    refine ⟨fun page => owned.bitSet_iff.trans (or_iff_left (Finset.notMem_empty page)), fun page managed _ => ?_⟩
    obtain ⟨pages, drained, _, exactly⟩ := (pmm_pool laid).drains owned
    exact ⟨pages, drained, (exactly page).mpr ⟨managed, Finset.notMem_empty page⟩⟩

theorem pmmInit_bitmaps_iff_smallMemory :
    BitmapsInitialised [{ base := 0x100000, size := 0x10000 }]
      (pmmInit [{ base := 0x100000, size := 0x10000 }] fun _ => 0#8) := by
  refine (pmmInit_bitmaps_iff _ _ smallMemory_ready.usable smallMemory_ready.disjoint).mpr fun page set => ?_
  obtain ⟨ent, member, index, bound, _, set⟩ := set
  have clear := smallMemory_ready.clear (pageBm ent) (List.mem_map_of_mem member) index bound
  exact absurd (set.symm.trans clear) (by decide)

/-- Memory full of ones is never handed out: no page gets on the stack, and none can be allocated. -/
theorem pmmInit_stale_memory :
    (∀ ent ∈ [({ base := 0x100000, size := 0x10000 } : MemlEnt)], ent.Usable) ∧
      BitSet [{ base := 0x100000, size := 0x10000 }]
        (pmmInit [{ base := 0x100000, size := 0x10000 }] fun _ => 0xff#8).mem 0x101000 ∧
      (pmmInit [{ base := 0x100000, size := 0x10000 }] fun _ => 0xff#8).pageStk = [] ∧
      (pmmAlloc (pmmInit [{ base := 0x100000, size := 0x10000 }] fun _ => 0xff#8)).1 = physAddrNull ∧
      ¬BitmapsInitialised [{ base := 0x100000, size := 0x10000 }]
        (pmmInit [{ base := 0x100000, size := 0x10000 }] fun _ => 0xff#8) := by
  have set : BitSet [{ base := 0x100000, size := 0x10000 }]
      (pmmInit [{ base := 0x100000, size := 0x10000 }] fun _ => 0xff#8).mem 0x101000 :=
    ⟨_, List.mem_singleton_self _, 0, by decide, by decide, by decide⟩
  have empty : (pmmInit [{ base := 0x100000, size := 0x10000 }] fun _ => 0xff#8).pageStk = [] := by decide
  refine ⟨smallMemory_ready.usable, set, empty, by decide, fun initialised => ?_⟩
  have onStack := (initialised.exactly 0x101000).mp set
  rw [empty] at onStack
  cases onStack

end Bwuhos
