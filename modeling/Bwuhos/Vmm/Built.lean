import Bwuhos.Paging.Spare
import Bwuhos.Vmm.Init

namespace Bwuhos

open Bwuhos.Data

/-! # The mappings that `vmm_init` makes

Every loop of `vmm_init` maps a list of pages, or allocates a frame for each page it maps.
`Built` says what is known of the map after any number of them.
-/

theorem mem_pageOffsets {offset size : Nat} : offset ∈ pageOffsets size ↔ offset % pageSize = 0 ∧ offset < size := by
  simp only [pageOffsets, List.mem_map, List.mem_range, pageSize]
  constructor
  · rintro ⟨page, below, rfl⟩
    omega
  · rintro ⟨aligned, below⟩
    exact ⟨offset / 4096, by omega, by omega⟩

/-- The pages are mapped in order, each a physical and a virtual address. -/
def mapPages (map flags : Nat) (pages : List (Nat × Nat)) (s : PhysMem) : PhysMem :=
  pages.foldl (fun s page => s.pagingMap map page.1 page.2 flags) s

def pageCalls (flags : Nat) (pages : List (Nat × Nat)) : List PagingCall :=
  pages.map fun page => .map page.1 page.2 flags

def megabytePages : List (Nat × Nat) :=
  (List.range (0x100000 / pageSize)).map fun page => (pageSize * page, pageSize * page)

def kernelPages (image : KernelImage) : List (Nat × Nat) :=
  (pageOffsets image.size).map fun i => (u64 (image.physicalBase + i), u64 (image.virtualBase + i))

def entPages (ent : MemlEnt) : List (Nat × Nat) :=
  (pageOffsets ent.size).map fun j => (u64 (ent.base + j), u64 (ent.base + j))

/-- The pages of the kernel image and then those of the usable entries. -/
def initPages (ents : List MemlEnt) (image : KernelImage) : List (Nat × Nat) :=
  kernelPages image ++ ents.flatMap entPages

def stackPage (index : Nat) : Nat := kStkBase + pageSize * index

/-- One iteration of the loop over the pages of the stack. -/
def mapStackPage (map : Nat) (s : PhysMem) (index : Nat) : PhysMem :=
  s.alloc.2.pagingMap map s.alloc.1 (stackPage index) (x86Flags vfWrite)

def stackCalls (frames : List Nat) : List PagingCall :=
  frames.mapIdx fun index frame => .map frame (stackPage index) (x86Flags vfWrite)

/-- All mappings that `vmm_init` makes, when the frames of the stack are the given ones. -/
def initCalls (ents : List MemlEnt) (image : KernelImage) (frames : List Nat) : List PagingCall :=
  pageCalls pfRw megabytePages ++ pageCalls (x86Flags vfWrite) (initPages ents image) ++ stackCalls frames

section Loops

variable {s : PhysMem} {ents : List MemlEnt} {image : KernelImage} (map flags : Nat)

theorem pagingCreateMap_pages (s : PhysMem) : s.pagingCreateMap =
    (s.alloc.1, mapPages s.alloc.1 pfRw megabytePages (s.alloc.2.fms64 s.alloc.1 0 (pageSize / 8))) := by
  rw [mapPages, megabytePages, List.foldl_map]
  rfl

theorem mapUsable_pages (s : PhysMem) : mapUsable ents map (mapKernel image map s) =
    mapPages map (x86Flags vfWrite) (initPages ents image) s := by
  simp only [mapPages, initPages, kernelPages, entPages, List.foldl_append, List.foldl_flatMap, List.foldl_map]
  rfl

theorem vmmInit_pages : vmmInit ents image s =
    (s.pagingCreateMap.1, (List.range kStkPages).foldl (mapStackPage s.pagingCreateMap.1)
      (mapPages s.pagingCreateMap.1 (x86Flags vfWrite) (initPages ents image) s.pagingCreateMap.2)) := by
  rw [← mapUsable_pages]
  rfl

theorem mapPages_answers (pages : List (Nat × Nat)) (s : PhysMem) :
    s.answers <+: (mapPages map flags pages s).answers := by
  induction pages generalizing s with
  | nil => exact List.prefix_refl _
  | cons page rest ih => exact (s.pagingMap_answers _ _ _ _).trans (ih _)

theorem mapStackPage_answers (s : PhysMem) (index : Nat) :
    s.alloc.2.answers <+: (mapStackPage map s index).answers := s.alloc.2.pagingMap_answers _ _ _ _

theorem mapStack_answers (indices : List Nat) (s : PhysMem) :
    s.answers <+: (indices.foldl (mapStackPage map) s).answers := by
  induction indices generalizing s with
  | nil => exact List.prefix_refl _
  | cons index rest ih => exact s.alloc_answers.trans ((mapStackPage_answers map s index).trans (ih _))

end Loops

theorem megabytePages_physical : ∀ page ∈ megabytePages, page.1 < 2 ^ 52 := by
  intro page member
  obtain ⟨number, inRange, rfl⟩ := List.mem_map.mp member
  have few : number < 256 := List.mem_range.mp inRange
  unfold pageSize
  omega

/-- The map has been built by the given calls, all of them mappings.  Of the frames that
`pmm_alloc` has supplied, `others` are not tables below the root. -/
structure Built (regions : List Bitmap) (held : Finset Nat) (final : List Nat) (s : PhysMem)
    (m : PagingMem) (root : Nat)
    (others : Nat) (calls : List PagingCall) : Prop where
  mirrors : Mirrors regions held final s m
  refines : Refines m root (calls.foldl PagingCall.write fun _ => none)
  permitted : Permitted m root calls
  mapped : ∀ call ∈ calls, call.writable.isSome
  count : s.answers.length = others + tableCount (calls.map PagingCall.vaddr)

theorem MapValid.alloc {m : PagingMem} {root : Nat} (valid : MapValid m root) : MapValid m.alloc.2 root :=
  ⟨valid.separated, fun path frame within there => by
    obtain ⟨call, earlier, same⟩ := valid.supplied path frame within there
    exact ⟨call, Nat.lt_succ_of_lt earlier, same⟩, valid.clean⟩

namespace Built

variable {regions : List Bitmap} {held : Finset Nat} {final : List Nat} {s : PhysMem} {m : PagingMem}
    {root others : Nat}
  {calls : List PagingCall} (laid : Laid regions) (physical : ∀ page, Managed regions page → page + 4096 ≤ 2 ^ 52)
include laid physical

theorem map {paddr vaddr flags : Nat} (built : Built regions held final s m root others calls) (bound : paddr < 2 ^ 52)
    (small : flags < 64) (answered : Answered final (s.pagingMap (4096 * root) paddr vaddr flags).answers) :
    Built regions held final (s.pagingMap (4096 * root) paddr vaddr flags)
      (pagingMap m (4096 * root) paddr vaddr flags)
      root others (calls ++ [.map paddr vaddr flags]) := by
  have valid := built.refines.valid
  have mirrors := built.mirrors.pagingMap laid physical valid bound small answered
  have supply := mirrors.fresh laid physical
  rw [mirrors.supply, ← built.mirrors.supply] at supply
  refine ⟨mirrors, ?_, (built.permitted.map supply small).2, ?_, ?_⟩
  · rw [List.foldl_append]
    exact (built.refines.map supply bound small).2
  · intro call member
    rcases List.mem_append.mp member with earlier | last
    · exact built.mapped call earlier
    · rw [List.mem_singleton.mp last]
      rfl
  · rw [built.mirrors.pagingMap_count laid physical valid bound small answered, built.count, List.map_append,
      tableCount_append, built.permitted.missingTables_eq built.mapped, Nat.add_assoc]
    rfl

omit physical in
theorem alloc (built : Built regions held final s m root others calls) (answered : Answered final s.alloc.2.answers) :
    Managed regions s.alloc.1 ∧ Built regions held final s.alloc.2 m.alloc.2 root (others + 1) calls := by
  obtain ⟨answer, managed, mirrors⟩ := built.mirrors.alloc laid answered
  refine ⟨answer.symm ▸ managed, mirrors, ⟨built.refines.valid.alloc, built.refines.translates⟩,
    ⟨built.permitted.valid.alloc, built.permitted.upper, built.permitted.leaf⟩, built.mapped, ?_⟩
  rw [PhysMem.alloc, List.length_append, List.length_singleton, built.count, Nat.add_right_comm]

theorem pages {flags : Nat} (small : flags < 64) {pages : List (Nat × Nat)} (bound : ∀ page ∈ pages, page.1 < 2 ^ 52)
    (built : Built regions held final s m root others calls)
    (answered : Answered final (mapPages (4096 * root) flags pages s).answers) :
    ∃ m', Built regions held final (mapPages (4096 * root) flags pages s) m' root others
      (calls ++ pageCalls flags pages) := by
  induction pages generalizing s m calls with
  | nil => exact ⟨m, (List.append_nil calls).symm ▸ built⟩
  | cons page rest ih =>
      have next := built.map laid physical (bound page List.mem_cons_self) small
        (answered.before (mapPages_answers _ _ rest _))
      obtain ⟨m', done⟩ := ih (fun other member => bound other (List.mem_cons_of_mem _ member)) next answered
      rw [List.append_assoc] at done
      exact ⟨m', done⟩

omit physical in
/-- The root of the map, allocated and cleared. -/
theorem rootTable (mirrors : Mirrors regions held final s m) (start : s.answers = [])
    (answered : Answered final s.alloc.2.answers) :
    ∃ root m', s.alloc.1 = 4096 * root ∧
      Built regions held final (s.alloc.2.fms64 (4096 * root) 0 (pageSize / 8)) m' root 1 [] := by
  obtain ⟨answer, managed, allocated⟩ := mirrors.alloc laid answered
  have aligned := Mirrors.aligned laid managed
  obtain ⟨root, page⟩ : ∃ root, m.alloc.1 = 4096 * root := ⟨m.alloc.1 / 4096, by omega⟩
  have cleared := clearedRoot_valid page
  have blank := allocated.fms64 laid managed
  rw [page] at blank
  have zero : ∀ vaddr level, wordFor (m.alloc.2.fms64 (4096 * root) 0 (pageSize / 8)).mem root vaddr level = 0 :=
    fun vaddr level => cleared.2 _ _
  refine ⟨root, _, answer.trans page, blank, ⟨cleared.1, fun vaddr => ?_⟩,
    ⟨cleared.1, fun vaddr level _ => ?_, fun vaddr => ?_⟩, fun call none => absurd none List.not_mem_nil, ?_⟩
  · rw [translate_eq, zero]
    rfl
  · rw [zero]
    rfl
  · rw [zero]
    rfl
  · have one : s.alloc.2.answers.length = 1 := by
      rw [PhysMem.alloc, start]
      rfl
    exact one

/-- The map that `paging_create_map` makes. -/
theorem create (mirrors : Mirrors regions held final s m) (start : s.answers = [])
    (answered : Answered final s.pagingCreateMap.2.answers) : ∃ root m', s.pagingCreateMap.1 = 4096 * root ∧
      Built regions held final s.pagingCreateMap.2 m' root 1 (pageCalls pfRw megabytePages) := by
  rw [pagingCreateMap_pages] at answered ⊢
  dsimp only at answered ⊢
  obtain ⟨root, m0, answer, empty⟩ := Built.rootTable laid mirrors start
    (answered.before (mapPages_answers s.alloc.1 pfRw megabytePages
    (s.alloc.2.fms64 s.alloc.1 0 (pageSize / 8))))
  rw [answer] at answered ⊢
  obtain ⟨m', built⟩ := empty.pages laid physical (by decide) megabytePages_physical answered
  exact ⟨root, m', rfl, built⟩

/-- The frames of the stack are in the order in which they were allocated. -/
theorem stack (count : Nat) (built : Built regions held final s m root others calls)
    (answered : Answered final ((List.range count).foldl (mapStackPage (4096 * root)) s).answers) :
    ∃ m' frames, frames.length = count ∧
      frames.Sublist ((List.range count).foldl (mapStackPage (4096 * root)) s).answers ∧
      Built regions held final ((List.range count).foldl (mapStackPage (4096 * root)) s) m' root (others + count)
        (calls ++ stackCalls frames) := by
  induction count with
  | zero => exact ⟨m, [], rfl, List.nil_sublist _, (List.append_nil calls).symm ▸ built⟩
  | succ count ih =>
      rw [List.range_succ, List.foldl_append, List.foldl_cons, List.foldl_nil] at answered ⊢
      generalize (List.range count).foldl (mapStackPage (4096 * root)) s = before at ih answered ⊢
      have mapped : before.alloc.2.answers <+: (mapStackPage (4096 * root) before count).answers :=
        mapStackPage_answers (4096 * root) before count
      have allocated := answered.before mapped
      obtain ⟨m', frames, length, inOrder, done⟩ := ih (allocated.before before.alloc_answers)
      obtain ⟨managed, taken⟩ := done.alloc laid allocated
      have inPhysical := physical _ managed
      have next := taken.map laid physical (by omega : before.alloc.1 < 2 ^ 52)
        (show x86Flags vfWrite < 64 by decide) answered
      have last : stackCalls (frames ++ [before.alloc.1]) = stackCalls frames ++
          [.map before.alloc.1 (stackPage count) (x86Flags vfWrite)] := by
        rw [stackCalls, List.mapIdx_concat, length, stackCalls]
      rw [List.append_assoc, ← last] at next
      refine ⟨_, frames ++ [before.alloc.1], ?_, ?_, next⟩
      · rw [List.length_append, length, List.length_singleton]
      · exact (inOrder.append (List.Sublist.refl [before.alloc.1])).trans mapped.sublist

end Built

section Init

variable {ents : List MemlEnt} {image : KernelImage} {regions : List Bitmap} {held : Finset Nat} {final : List Nat}
  {s : PhysMem} {m : PagingMem}

theorem initPages_physical (loaded : image.Loaded) (low : ∀ ent ∈ ents, ent.base + ent.size ≤ 2 ^ 47) :
    ∀ page ∈ initPages ents image, page.1 < 2 ^ 52 := by
  intro page member
  rcases List.mem_append.mp member with inKernel | inUsable
  · obtain ⟨offset, inImage, rfl⟩ := List.mem_map.mp inKernel
    have below := (mem_pageOffsets.mp inImage).2
    rw [loaded.size_eq] at below
    have inPhysical := loaded.physical
    exact Nat.lt_of_le_of_lt (u64_le _) (by omega)
  · obtain ⟨ent, inEnts, ofEnt⟩ := List.mem_flatMap.mp inUsable
    obtain ⟨offset, inEnt, rfl⟩ := List.mem_map.mp ofEnt
    have below := (mem_pageOffsets.mp inEnt).2
    have last := low ent inEnts
    exact Nat.lt_of_le_of_lt (u64_le _) (by omega)

/-- `vmm_init` makes the mappings of `initCalls`. -/
theorem vmmInit_built (laid : Laid regions) (physical : ∀ page, Managed regions page → page + 4096 ≤ 2 ^ 52)
    (loaded : image.Loaded) (low : ∀ ent ∈ ents, ent.base + ent.size ≤ 2 ^ 47)
    (mirrors : Mirrors regions held final s m)
    (start : s.answers = []) (answered : Answered final (vmmInit ents image s).2.answers) :
    ∃ root m' frames, (vmmInit ents image s).1 = 4096 * root ∧ frames.length = kStkPages ∧
      frames.Sublist (vmmInit ents image s).2.answers ∧
      Built regions held final (vmmInit ents image s).2 m' root (1 + kStkPages) (initCalls ents image frames) := by
  rw [vmmInit_pages] at answered ⊢
  dsimp only at answered ⊢
  have mapped := answered.before (mapStack_answers _ _ _)
  obtain ⟨root, m0, map, created⟩ := Built.create laid physical mirrors start
    (mapped.before (mapPages_answers _ _ _ _))
  rw [map] at answered mapped ⊢
  obtain ⟨m1, pagesBuilt⟩ := created.pages laid physical (show x86Flags vfWrite < 64 by decide)
    (initPages_physical loaded low) mapped
  obtain ⟨m2, frames, length, inOrder, done⟩ := pagesBuilt.stack laid physical kStkPages answered
  exact ⟨root, m2, frames, rfl, length, inOrder, done⟩

end Init

end Bwuhos
