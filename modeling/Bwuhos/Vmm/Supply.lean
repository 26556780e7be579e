import Bwuhos.Vmm.Built

namespace Bwuhos

open Bwuhos.Data

/-! # Enough memory for `vmm_init`

`vmm_init` cannot run out of page frames when there are enough for the root, the stack and
a table for every region that it maps addresses in, with three to spare.
-/

/-- The addresses that `vmm_init` maps, in order. -/
def initVaddrs (ents : List MemlEnt) (image : KernelImage) : List Nat :=
  (megabytePages ++ initPages ents image).map Prod.snd ++ (List.range kStkPages).map stackPage

theorem pageCalls_vaddrs (flags : Nat) (pages : List (Nat × Nat)) :
    (pageCalls flags pages).map PagingCall.vaddr = pages.map Prod.snd := by
  rw [pageCalls, List.map_map]
  rfl

theorem stackCalls_vaddrs (frames : List Nat) :
    (stackCalls frames).map PagingCall.vaddr = (List.range frames.length).map stackPage := by
  refine List.ext_getElem ?_ fun index _ _ => ?_
  · simp only [stackCalls, List.length_map, List.length_mapIdx, List.length_range]
  · simp only [stackCalls, List.getElem_map, List.getElem_mapIdx, List.getElem_range]
    rfl

namespace Built

variable {regions : List Bitmap} {held frames : Finset Nat} {final : List Nat} {s : PhysMem} {m : PagingMem}
  {root others : Nat} {calls : List PagingCall} (laid : Laid regions)
  (physical : ∀ page, Managed regions page → page + 4096 ≤ 2 ^ 52) (managed : ∀ page ∈ frames, Managed regions page)
include laid physical managed

theorem pages_answered {flags : Nat} (small : flags < 64) {pages : List (Nat × Nat)}
    (bound : ∀ page ∈ pages, page.1 < 2 ^ 52)
    (built : Built regions held final s m root others calls)
    (room : held.card + (others + tableCount (calls.map PagingCall.vaddr ++ pages.map Prod.snd)) + 3 ≤ frames.card)
    (history : (mapPages (4096 * root) flags pages s).answers <+: final) :
    Answered final (mapPages (4096 * root) flags pages s).answers := by
  induction pages generalizing s m calls with
  | nil => exact built.mirrors.answered
  | cons page rest ih =>
      have now := built.count
      have enough := room
      rw [tableCount_append] at enough
      have answered := built.mirrors.pagingMap_answered laid physical managed built.refines.valid small (by omega)
        ((mapPages_answers _ _ rest _).trans history)
      have next := built.map laid physical (bound page List.mem_cons_self) small answered
      refine ih (fun other member => bound other (List.mem_cons_of_mem _ member)) next ?_ history
      rw [List.map_append, List.append_assoc]
      exact room

theorem stack_answered (count : Nat) (built : Built regions held final s m root others calls)
    (room : held.card + (others + count +
      tableCount (calls.map PagingCall.vaddr ++ (List.range count).map stackPage)) + 3 ≤ frames.card)
    (history : ((List.range count).foldl (mapStackPage (4096 * root)) s).answers <+: final) :
    Answered final ((List.range count).foldl (mapStackPage (4096 * root)) s).answers := by
  induction count with
  | zero => exact built.mirrors.answered
  | succ count ih =>
      rw [List.range_succ, List.map_append, ← List.append_assoc, tableCount_append] at room
      rw [List.range_succ, List.foldl_append, List.foldl_cons, List.foldl_nil] at history ⊢
      have grows := mapStackPage_answers (4096 * root) ((List.range count).foldl (mapStackPage (4096 * root)) s) count
      have before := ih (by omega) ((PhysMem.alloc_answers _).trans (grows.trans history))
      obtain ⟨m', stacked, length, _, done⟩ := built.stack laid physical count before
      have now := done.count
      rw [List.map_append, stackCalls_vaddrs, length] at now
      have allocated := done.mirrors.alloc_answered laid managed (by omega) (grows.trans history)
      obtain ⟨_, taken⟩ := done.alloc laid allocated
      have later := taken.count
      rw [List.map_append, stackCalls_vaddrs, length] at later
      exact taken.mirrors.pagingMap_answered laid physical managed taken.refines.valid (by decide) (by omega) history

/-- Two loops that map pages, and then the loop over the pages of the stack. -/
theorem loops_answered {first second : List (Nat × Nat)} {flags others count : Nat} (small : flags < 64)
    (firstBound : ∀ page ∈ first, page.1 < 2 ^ 52) (secondBound : ∀ page ∈ second, page.1 < 2 ^ 52)
    (built : Built regions held final s m root others [])
    (room : held.card + (others + count +
      tableCount ((first ++ second).map Prod.snd ++ (List.range count).map stackPage)) + 3 ≤ frames.card)
    (history : ((List.range count).foldl (mapStackPage (4096 * root))
      (mapPages (4096 * root) flags second (mapPages (4096 * root) pfRw first s))).answers <+: final) :
    Answered final ((List.range count).foldl (mapStackPage (4096 * root))
      (mapPages (4096 * root) flags second (mapPages (4096 * root) pfRw first s))).answers := by
  have secondHistory := (mapStack_answers _ _ _).trans history
  have firstHistory := (mapPages_answers _ _ _ _).trans secondHistory
  rw [List.map_append, tableCount_append] at room
  have firstRoom := room
  rw [tableCount_append] at firstRoom
  have firstAnswered := built.pages_answered laid physical managed (by decide) firstBound
    (by rw [List.map_nil, List.nil_append]; omega) firstHistory
  obtain ⟨m1, firstBuilt⟩ := built.pages laid physical (by decide) firstBound firstAnswered
  rw [List.nil_append] at firstBuilt
  have secondAnswered := firstBuilt.pages_answered laid physical managed small secondBound
    (by rw [pageCalls_vaddrs]; omega) secondHistory
  obtain ⟨m2, secondBuilt⟩ := firstBuilt.pages laid physical small secondBound secondAnswered
  refine secondBuilt.stack_answered laid physical managed count ?_ history
  rw [List.map_append, pageCalls_vaddrs, pageCalls_vaddrs, tableCount_append]
  exact room

end Built

/-- With enough frames, `pmm_alloc` never answers null while `vmm_init` runs. -/
theorem vmmInit_answered {ents : List MemlEnt} {image : KernelImage} {regions : List Bitmap} {held frames : Finset Nat}
    {final : List Nat} {s : PhysMem} {m : PagingMem} (laid : Laid regions)
    (physical : ∀ page, Managed regions page → page + 4096 ≤ 2 ^ 52)
    (managed : ∀ page ∈ frames, Managed regions page) (loaded : image.Loaded)
    (low : ∀ ent ∈ ents, ent.base + ent.size ≤ 2 ^ 47) (mirrors : Mirrors regions held final s m)
    (start : s.answers = [])
    (room : held.card + (1 + kStkPages + tableCount (initVaddrs ents image)) + 3 ≤ frames.card)
    (history : (vmmInit ents image s).2.answers <+: final) : Answered final (vmmInit ents image s).2.answers := by
  have small : x86Flags vfWrite < 64 := by decide
  have length : s.answers.length = 0 := congrArg List.length start
  rw [vmmInit_pages, pagingCreateMap_pages] at history ⊢
  dsimp only at history ⊢
  have allocated := (mapPages_answers s.alloc.1 pfRw megabytePages (s.alloc.2.fms64 s.alloc.1 0 (pageSize / 8))).trans
    ((mapPages_answers _ _ _ _).trans ((mapStack_answers _ _ _).trans history))
  obtain ⟨root, m0, map, built⟩ := Built.rootTable laid mirrors start
    (mirrors.alloc_answered laid managed (by omega) allocated)
  rw [map] at history ⊢
  exact built.loops_answered laid physical managed small megabytePages_physical
    (initPages_physical loaded low) room history

end Bwuhos
