import Bwuhos.Kheap.Headers
import Mathlib.Order.Interval.Finset.Nat

namespace Bwuhos

open Bwuhos.Data

/-! # What the users of the kernel heap can rely on -/

/-- Physical memory, the blocks handed out so far and the bytes last written to them. -/
structure HeapUse where
  kernel : KernelMem
  areas : List Area
  written : Nat → Option (BitVec 8)

inductive HeapAction
  | alloc (n : Nat)
  | write (addr : Nat) (byte : BitVec 8)
deriving Repr, DecidableEq

/-- Memory as `vmm_init` leaves it, with its map in use. -/
def bootMem (ents : List MemlEnt) (image : KernelImage) (mem : ByteMemory) : KernelMem :=
  let booted := vmmInit ents image { pmm := pmmInit ents mem, answers := [] }
  { phys := booted.2, cr3 := booted.1, khHead := 0, khTail := 0, khNpages := 0 }

/-- After `kheap_init`, calls of `kheap_alloc` and writes to the blocks that it has handed out. -/
def heapClients (ents : List MemlEnt) (image : KernelImage) (mem : ByteMemory) :
    TransitionSystem HeapUse HeapAction where
  initial use := KernelMem.kheapInit (bootMem ents image mem) = .ok (0, use.kernel) ∧ use.areas = [] ∧
    use.written = fun _ => none
  step before action after := match action with
    | .alloc n => n ≤ khMaxNpages * pageSize ∧ after.written = before.written ∧
        ∃ fuel ret, KernelMem.kheapAlloc fuel n before.kernel = .ok (ret, after.kernel) ∧
          after.areas = if ret = 0 then before.areas else ⟨ret, n⟩ :: before.areas
    | .write addr byte => (∃ area ∈ before.areas, area.Holds addr) ∧
        before.kernel.writeByte addr byte = some after.kernel ∧ after.areas = before.areas ∧
        after.written = Function.update before.written addr (some byte)

/-- The blocks lie apart in memory that is theirs, at their virtual addresses, and nothing else has
changed since `vmm_init`. -/
structure HeapServed (boot : KernelMem) (use : HeapUse) : Prop where
  once : use.kernel.phys.answers.Nodup
  elsewhere : ∀ vaddr, (∀ index < use.kernel.khNpages, virtualPage vaddr ≠ virtualPage (heapPage index)) →
    translate use.kernel.phys.load use.kernel.cr3 vaddr = translate boot.phys.load boot.cr3 vaddr
  writable : ∀ vaddr frame, translate use.kernel.phys.load use.kernel.cr3 vaddr = some frame →
    EffectivelyWritable use.kernel.phys.load use.kernel.cr3 vaddr
  pages : ∃ frames : List Nat, frames.length = use.kernel.khNpages ∧ frames.Nodup ∧
    (∀ frame ∈ frames, frame ∈ use.kernel.phys.answers) ∧
    ∀ index (bound : index < frames.length), ∀ vaddr, virtualPage vaddr = virtualPage (heapPage index) →
      translate use.kernel.phys.load use.kernel.cr3 vaddr = some frames[index]
  areas : use.areas.Pairwise Area.Apart ∧ ∀ area ∈ use.areas, area.addr % 16 = 0 ∧ khStart + khEntSize ≤ area.addr ∧
    area.addr + area.size ≤ heapPage use.kernel.khNpages
  kept : ∀ addr byte, use.written addr = some byte → use.kernel.readByte addr = some byte
  accepts : ∀ area ∈ use.areas, ∀ addr, area.Holds addr → ∀ byte, (use.kernel.writeByte addr byte).isSome
  returns : ∀ n ≤ khMaxNpages * pageSize, ∀ fuel > khMaxNpages * pageSize,
    (∃ ret after, KernelMem.kheapAlloc fuel n use.kernel = .ok (ret, after)) ∨
      physAddrNull ∈ (KernelMem.ending Prod.snd (KernelMem.kheapAlloc fuel n use.kernel)).phys.answers

/-- The heap is backed, the areas are blocks of it and hold what was written. -/
structure Serves (regions : List Bitmap) (held : Finset Nat) (final : List Nat) (calls : List PagingCall) (root : Nat)
    (use : HeapUse) (m : PagingMem) (others : Nat) (frames : List Nat) (kh : Kheap) (blocks : List Nat) : Prop where
  backed : Backed regions held final calls root use.kernel m others frames
  headed : Headed use.kernel frames kh blocks
  areas : ∀ area ∈ use.areas, ∃ ent ∈ blocks, area = blockArea kh ent
  distinct : use.areas.Nodup
  written : ∀ addr byte, use.written addr = some byte →
    (∃ area ∈ use.areas, area.Holds addr) ∧ heapMem use.kernel.phys frames addr = byte

section

variable {regions : List Bitmap} {held : Finset Nat} {final : List Nat} {calls : List PagingCall}
  {before after : HeapUse} {k : KernelMem} {m : PagingMem} {root others n ret new addr : Nat}
  {frames blocks : List Nat} {kh kh' : Kheap} {area : Area} {byte : BitVec 8}

theorem HeapShape.length_le (shape : HeapShape kh blocks) : blocks.length ≤ khMaxNpages * pageSize := by
  have within : blocks.toFinset ⊆ Finset.Ico khStart (khStart + khMaxNpages * pageSize) := by
    intro ent member
    obtain ⟨low, high⟩ := shape.inside ent (List.mem_toFinset.mp member)
    have pages := shape.bounded
    unfold Kheap.blockEnd khEntSize at high
    unfold pageSize at high ⊢
    exact Finset.mem_Ico.mpr ⟨low, by omega⟩
  have count := Finset.card_le_card within
  rw [List.toFinset_card_of_nodup shape.nodup, Nat.card_Ico, Nat.add_sub_cancel_left] at count
  exact count

namespace Serves

theorem inHeap (serves : Serves regions held final calls root before m others frames kh blocks)
    (member : area ∈ before.areas) (holds : area.Holds addr) : InHeap frames.length addr := by
  obtain ⟨ent, listed, rfl⟩ := serves.areas area member
  exact serves.headed.inHeap serves.backed listed (Nat.le_trans (Nat.le_add_right _ _) holds.1) holds.2

/-- The blocks in use are blocks of the heap still, when the blocks keep their sizes. -/
theorem listed (serves : Serves regions held final calls root before m others frames kh blocks)
    (sizes : ∀ ent ∈ blocks, kh'.dataSize ent = kh.dataSize ent) (member : area ∈ before.areas) :
    ∃ ent ∈ blocks, area = blockArea kh' ent := by
  obtain ⟨ent, inBlocks, rfl⟩ := serves.areas area member
  exact ⟨ent, inBlocks, congrArg (Area.mk _) (sizes ent inBlocks).symm⟩

/-- What was written is there still, when the blocks keep their data. -/
theorem bytes (serves : Serves regions held final calls root before m others frames kh blocks)
    {memory : ByteMemory} (keeps : KeepsData kh blocks (heapMem before.kernel.phys frames) memory)
    (last : before.written addr = some byte) :
    (∃ area ∈ before.areas, area.Holds addr) ∧ memory addr = byte := by
  obtain ⟨⟨area, member, holds⟩, same⟩ := serves.written addr byte last
  obtain ⟨ent, inBlocks, rfl⟩ := serves.areas area member
  exact ⟨⟨_, member, holds⟩, (keeps ent inBlocks addr holds.1 holds.2).trans same⟩

/-- A block behind those that there are is none of the areas in use. -/
theorem fresh (serves : Serves regions held final calls root before m others frames kh blocks)
    (nodup : (blocks ++ [new]).Nodup) : (⟨new + khEntSize, n⟩ : Area) ∉ before.areas := by
  intro member
  obtain ⟨ent, inBlocks, same⟩ := serves.areas _ member
  have apart := (List.nodup_append.mp nodup).2.2 ent inBlocks new (List.mem_singleton_self new)
  exact apart (Nat.add_right_cancel (congrArg Area.addr same).symm)

/-- A call of `kheap_alloc`. -/
theorem allocated (serves : Serves regions held final calls root before m others frames kh blocks)
    (allocated : Allocated regions held final calls root (heapMem before.kernel.phys frames) kh blocks n ret
      after.kernel)
    (written : after.written = before.written)
    (areas : after.areas = if ret = 0 then before.areas else ⟨ret, n⟩ :: before.areas) :
    ∃ m others frames kh blocks, Serves regions held final calls root after m others frames kh blocks := by
  obtain ⟨m', others', frames', kh', added, backed, headed, keeps, sizes, ends⟩ := allocated
  obtain ⟨rfl, rfl⟩ | ⟨new, rfl, rfl, size⟩ := ends
  · rw [if_pos rfl] at areas
    refine ⟨m', others', frames', kh', blocks ++ [], backed, headed, ?_, areas.symm ▸ serves.distinct, ?_⟩
    · rw [areas, List.append_nil]
      exact fun area member => serves.listed sizes member
    · rw [written, areas]
      exact fun addr byte last => serves.bytes keeps last
  · have notNull : new + khEntSize ≠ 0 := Nat.succ_ne_zero _
    rw [if_neg notNull] at areas
    have here : blockArea kh' new = ⟨new + khEntSize, n⟩ := congrArg (Area.mk _) size
    have fresh := serves.fresh (n := n) headed.shape.nodup
    refine ⟨m', others', frames', kh', blocks ++ [new], backed, headed, ?_, ?_, ?_⟩
    · intro area member
      rw [areas] at member
      obtain rfl | old := List.mem_cons.mp member
      · exact ⟨new, List.mem_append_right _ (List.mem_singleton_self new), here.symm⟩
      · obtain ⟨ent, inBlocks, same⟩ := serves.listed sizes old
        exact ⟨ent, List.mem_append_left _ inBlocks, same⟩
    · exact areas.symm ▸ List.nodup_cons.mpr ⟨fresh, serves.distinct⟩
    · intro addr byte last
      rw [written] at last
      obtain ⟨⟨area, member, holds⟩, same⟩ := serves.bytes keeps last
      exact ⟨⟨area, areas.symm ▸ List.mem_cons_of_mem _ member, holds⟩, same⟩

/-- The areas in use lie apart. -/
theorem pairwise_apart (serves : Serves regions held final calls root before m others frames kh blocks) :
    before.areas.Pairwise Area.Apart := by
  refine serves.distinct.imp_of_mem fun {one other} member also different => ?_
  obtain ⟨ent, listed, rfl⟩ := serves.areas one member
  obtain ⟨more, alsoListed, rfl⟩ := serves.areas other also
  exact serves.headed.shape.areas_apart listed alsoListed different

/-- An area in use is aligned and lies in the pages of the heap. -/
theorem area_inside (serves : Serves regions held final calls root before m others frames kh blocks)
    (member : area ∈ before.areas) : area.addr % 16 = 0 ∧ khStart + khEntSize ≤ area.addr ∧
      area.addr + area.size ≤ heapPage before.kernel.khNpages := by
  obtain ⟨ent, listed, rfl⟩ := serves.areas area member
  have aligned := serves.headed.shape.aligned ent listed
  have inside := serves.headed.shape.inside ent listed
  rw [← serves.headed.npages] at inside
  exact ⟨by simp only [blockArea, khEntSize]; omega, Nat.add_le_add_right inside.1 _, inside.2⟩

/-- No header lies in the data of a block. -/
theorem header_apart (serves : Serves regions held final calls root before m others frames kh blocks)
    (member : area ∈ before.areas) (holds : area.Holds addr) {ent cell : Nat} (listed : ent ∈ blocks)
    (low : ent ≤ cell) (high : cell < ent + khEntSize) : cell ≠ addr := by
  obtain ⟨other, inBlocks, rfl⟩ := serves.areas area member
  obtain ⟨above, below⟩ := holds
  simp only [blockArea] at above below
  by_cases same : other = ent
  · omega
  · have apart := serves.headed.shape.apart inBlocks listed same
    simp only [Kheap.blockEnd] at apart
    omega

variable (laid : Laid regions) (physical : ∀ page, Managed regions page → page + 4096 ≤ 2 ^ 52)
  (elsewhere : Elsewhere calls)
include laid physical elsewhere

/-- A byte is written to a block. -/
theorem wrote (serves : Serves regions held final calls root before m others frames kh blocks)
    (member : area ∈ before.areas) (holds : area.Holds addr) (wrote : before.kernel.writeByte addr byte = some k) :
    ∃ m, Serves regions held final calls root ⟨k, before.areas, Function.update before.written addr (some byte)⟩
      m others frames kh blocks := by
  have inside := serves.inHeap member holds
  obtain ⟨mem, m', writes, backed, cells⟩ := serves.backed.writeByte laid physical elsewhere inside byte
  obtain rfl := Option.some.inj (writes.symm.trans wrote)
  have headers : ∀ ent ∈ blocks, ∀ cell, ent ≤ cell → cell < ent + khEntSize →
      heapMem (before.kernel.setMem mem).phys frames cell = heapMem before.kernel.phys frames cell := by
    intro ent listed cell low high
    have within : cell < kh.blockEnd ent := Nat.lt_of_lt_of_le high (Nat.le_add_right _ _)
    rw [cells cell (serves.headed.inHeap serves.backed listed low within)]
    exact Function.update_of_ne (serves.header_apart member holds listed low high) _ _
  unfold khEntSize at headers
  have headed := serves.headed
  refine ⟨m', backed, ⟨headed.shape, headed.head, headed.tail, headed.npages, fun ent listed => ?_,
    fun ent listed => ?_⟩, serves.areas, serves.distinct, fun other last here => ?_⟩
  · exact (ByteMemory.loadInt_congr fun position small => headers ent listed _ (by omega) (by omega)).trans
      (headed.next ent listed)
  · exact (ByteMemory.loadInt_congr fun position small => headers ent listed _ (by omega) (by omega)).trans
      (headed.dataSize ent listed)
  · by_cases same : other = addr
    · subst same
      obtain rfl := Option.some.inj ((Function.update_self other _ before.written).symm.trans here)
      refine ⟨⟨area, member, holds⟩, (cells other inside).trans (Function.update_self ..)⟩
    · replace here := (Function.update_of_ne same _ _).symm.trans here
      obtain ⟨⟨area, inAreas, holdsIt⟩, old⟩ := serves.written other last here
      refine ⟨⟨area, inAreas, holdsIt⟩, (cells other (serves.inHeap inAreas holdsIt)).trans ?_⟩
      rw [Function.update_of_ne same, old]

end Serves

end

section

variable {ents : List MemlEnt} {image : KernelImage} {mem : ByteMemory} {final stack : List Nat} {use after : HeapUse}

theorem initCalls_elsewhere (usable : ∀ ent ∈ ents, ent.Usable) (low : ∀ ent ∈ ents, ent.base + ent.size ≤ 2 ^ 47)
    (loaded : image.Loaded) (length : stack.length = kStkPages) : Elsewhere (initCalls ents image stack) where
  writable _ member := initCalls_writable usable low member
  outside call member index bound := by
    rw [virtualPage_heapPage bound]
    unfold khMaxNpages at bound
    obtain ⟨addr, flags, rfl, _, _, lowAddr⟩ | ⟨offset, inside, _, rfl⟩ | ⟨page, inStack, rfl⟩ :=
      initCalls_cases usable low member
    · rw [PagingCall.vaddr, virtualPage_low lowAddr]
      omega
    · have top := loaded.top
      rw [PagingCall.vaddr, loaded.virtualPage inside]
      omega
    · rw [PagingCall.vaddr, virtualPage_stack (length ▸ inStack)]
      omega

/-- The heap serves its users, on top of the mappings of `vmm_init`. -/
def HeapInv (ents : List MemlEnt) (image : KernelImage) (mem : ByteMemory) (final : List Nat) (use : HeapUse) : Prop :=
  ∃ calls root m others frames kh blocks, Elsewhere calls ∧
    (∀ vaddr, calls.foldl PagingCall.write (fun _ => none) (virtualPage vaddr) =
      translate (bootMem ents image mem).phys.load (bootMem ents image mem).cr3 vaddr) ∧
    Serves (ents.map pageBm) (staleFrames ents mem) final calls root use m others frames kh blocks

variable (usable : ∀ ent ∈ ents, ent.Usable) (low : ∀ ent ∈ ents, ent.base + ent.size ≤ 2 ^ 47)
  (disjoint : ents.Pairwise MemlEnt.Disjoint)
include usable low disjoint

theorem heapInv_initial (loaded : image.Loaded) (starts : (heapClients ents image mem).initial use)
    (answered : Answered final use.kernel.phys.answers) : HeapInv ents image mem final use := by
  have laid := pageBms_laid usable disjoint
  have physical := managed_physical usable low
  obtain ⟨returned, noAreas, noBytes⟩ := starts
  have more : (bootMem ents image mem).phys.answers <+: use.kernel.phys.answers := by
    rw [kheapInit_answers returned]
    exact (PhysMem.alloc_answers _).trans (PhysMem.pagingMap_answers _ _ _ _ _)
  obtain ⟨root, m, stack, map, length, _, built⟩ := vmmInit_built laid physical loaded low
    (pmmInit_mirrors usable disjoint mem final) rfl (answered.before more)
  have elsewhere := initCalls_elsewhere usable low loaded length
  obtain ⟨m', page, backed, headed⟩ := @kheapInit_backed _ _ _ _ (bootMem ents image mem) use.kernel m root _ laid
    physical elsewhere built map rfl returned answered
  refine ⟨_, root, m', _, [page], _, [khStart], elsewhere, fun vaddr => ?_, backed, headed, ?_, ?_, ?_⟩
  · rw [← built.refines.translates, ← built.mirrors.translate built.refines.valid, ← map]
    rfl
  · simp [noAreas]
  · simp [noAreas]
  · simp [noBytes]

theorem heapInv_step {action : HeapAction} (step : (heapClients ents image mem).step use action after)
    (inv : ∀ final, Answered final use.kernel.phys.answers → HeapInv ents image mem final use)
    (answered : Answered final after.kernel.phys.answers) : HeapInv ents image mem final after := by
  have laid := pageBms_laid usable disjoint
  have physical := managed_physical usable low
  cases action with
  | alloc n =>
      obtain ⟨small, written, fuel, ret, returned, areas⟩ := step
      have ending : (KernelMem.ending Prod.snd (KernelMem.kheapAlloc fuel n use.kernel)).phys.answers =
          after.kernel.phys.answers := by rw [returned]; rfl
      rw [← ending] at answered
      have more := KernelMem.takeOrGrow_answers (@KernelMem.kheapGrow_answers use.kernel fuel n
        (khMaxNpages - use.kernel.khNpages))
      obtain ⟨calls, root, m, others, frames, kh, blocks, elsewhere, view, serves⟩ := inv final (answered.before more)
      obtain ⟨_, _, same, allocated⟩ | ⟨_, stopped, fault⟩ :=
        kheapAlloc_backed laid physical elsewhere small serves.backed serves.headed answered
      · obtain ⟨rfl, rfl⟩ := Prod.mk.inj (Except.ok.inj (returned.symm.trans same))
        obtain ⟨m', others', frames', kh', blocks', next⟩ := serves.allocated allocated written areas
        exact ⟨calls, root, m', others', frames', kh', blocks', elsewhere, view, next⟩
      · rw [returned] at fault
        cases fault
  | write addr byte =>
      obtain ⟨kernel, areas, written⟩ := after
      obtain ⟨⟨area, member, holds⟩, wrote, rfl, rfl⟩ := step
      have same : kernel.phys.answers = use.kernel.phys.answers := by
        obtain ⟨place, _, rfl⟩ := Option.map_eq_some_iff.mp wrote
        rfl
      obtain ⟨calls, root, m, others, frames, kh, blocks, elsewhere, view, serves⟩ := inv final (same ▸ answered)
      obtain ⟨m', next⟩ := serves.wrote laid physical elsewhere member holds wrote
      exact ⟨calls, root, m', others, frames, kh, blocks, elsewhere, view, next⟩

/-- A call of `kheap_alloc` returns or runs out of pages. -/
theorem kheapAlloc_returns (inv : ∀ final, Answered final use.kernel.phys.answers → HeapInv ents image mem final use)
    {n fuel : Nat} (small : n ≤ khMaxNpages * pageSize) (enough : khMaxNpages * pageSize < fuel) :
    (∃ ret after, KernelMem.kheapAlloc fuel n use.kernel = .ok (ret, after)) ∨
      physAddrNull ∈ (KernelMem.ending Prod.snd (KernelMem.kheapAlloc fuel n use.kernel)).phys.answers := by
  have laid := pageBms_laid usable disjoint
  have physical := managed_physical usable low
  by_cases exhausted : physAddrNull ∈
      (KernelMem.ending Prod.snd (KernelMem.kheapAlloc fuel n use.kernel)).phys.answers
  · exact Or.inr exhausted
  · have answered : Answered _ _ := ⟨List.prefix_refl _, exhausted⟩
    have more := KernelMem.takeOrGrow_answers (@KernelMem.kheapGrow_answers use.kernel fuel n
      (khMaxNpages - use.kernel.khNpages))
    obtain ⟨_, _, _, _, _, _, blocks, elsewhere, _, serves⟩ := inv _ (answered.before more)
    obtain ⟨ret, after, returned, _⟩ | ⟨short, _⟩ :=
      kheapAlloc_backed laid physical elsewhere small serves.backed serves.headed answered
    · exact Or.inl ⟨ret, after, returned⟩
    · have most := serves.headed.shape.length_le
      omega

/-- In every run in which `pmm_alloc` has not run out of pages, the blocks of the heap are memory
of their own in pages of their own, and `kheap_alloc` returns. -/
theorem heap_served (loaded : image.Loaded) (reached : (heapClients ents image mem).Reachable use)
    (supplied : physAddrNull ∉ use.kernel.phys.answers) : HeapServed (bootMem ents image mem) use := by
  have laid := pageBms_laid usable disjoint
  have physical := managed_physical usable low
  have always : ∀ final, Answered final use.kernel.phys.answers → HeapInv ents image mem final use :=
    reached.invariant (fun use => ∀ final, Answered final use.kernel.phys.answers → HeapInv ents image mem final use)
      (fun _ starts _ answered => heapInv_initial usable low disjoint loaded starts answered)
      fun _ _ _ _ inv step _ answered => heapInv_step usable low disjoint step inv answered
  obtain ⟨calls, root, m, others, frames, kh, blocks, elsewhere, view, serves⟩ :=
    always _ ⟨List.prefix_refl _, supplied⟩
  have backed := serves.backed
  refine ⟨backed.built.mirrors.nodup, fun vaddr outside => ?_, fun vaddr frame => backed.writable elsewhere,
    ⟨frames, backed.npages.symm, backed.distinct, backed.given, fun index bound vaddr page =>
      (backed.heap_page laid physical elsewhere bound page).1⟩,
    ⟨serves.pairwise_apart, fun area => serves.area_inside⟩, fun addr byte last => ?_,
    fun area member addr holds byte => ?_, fun n small fuel enough => ?_⟩
  · rw [← view]
    exact backed.translate_elsewhere fun index bound => outside index (backed.npages.symm ▸ bound)
  · obtain ⟨⟨area, member, holds⟩, same⟩ := serves.written addr byte last
    rw [backed.readByte laid physical elsewhere (serves.inHeap member holds), same]
  · obtain ⟨_, _, wrote, _⟩ := backed.writeByte laid physical elsewhere (serves.inHeap member holds) byte
    rw [wrote]
    rfl
  · exact kheapAlloc_returns usable low disjoint always small enough

end

section

variable {regions : List Bitmap} {held : Finset Nat} {final : List Nat} {calls : List PagingCall} {k : KernelMem}
  {m : PagingMem} {root others n new fuel : Nat} {frames blocks : List Nat} {kh : Kheap}

/-- With four frames to spare, `kheap_init` succeeds. -/
theorem kheapInit_succeeds {free : Finset Nat} (laid : Laid regions)
    (physical : ∀ page, Managed regions page → page + 4096 ≤ 2 ^ 52) (elsewhere : Elsewhere calls)
    (managed : ∀ page ∈ free, Managed regions page)
    (built : Built regions held k.firstPage.phys.answers k.phys m root others calls) (map : k.cr3 = 4096 * root)
    (none : k.khNpages = 0) (room : held.card + k.phys.answers.length + 4 ≤ free.card) :
    ∃ kernel, KernelMem.kheapInit k = .ok (0, kernel) ∧ physAddrNull ∉ kernel.phys.answers := by
  have answers : k.firstPage.phys.answers =
      (k.phys.alloc.2.pagingMap (4096 * root) k.phys.alloc.1 khStart (x86Flags vfWrite)).answers := by
    rw [← map]
    rfl
  have mapped := k.phys.alloc.2.pagingMap_answers (4096 * root) k.phys.alloc.1 khStart (x86Flags vfWrite)
  rw [← answers] at mapped
  have allocated := built.mirrors.alloc_answered laid managed (by omega) mapped
  obtain ⟨_, taken⟩ := built.alloc laid allocated
  have length : k.phys.alloc.2.answers.length = k.phys.answers.length + 1 := List.length_append
  have history : (k.phys.alloc.2.pagingMap (4096 * root) k.phys.alloc.1 khStart (x86Flags vfWrite)).answers <+:
      k.firstPage.phys.answers := by rw [answers]
  have spare : held.card + k.phys.alloc.2.answers.length + 3 ≤ free.card := by omega
  have answered := taken.mirrors.pagingMap_answered laid physical managed taken.refines.valid
    (show x86Flags vfWrite < 64 by decide) spare history
  rw [← answers] at answered
  have null : k.phys.alloc.1 ≠ physAddrNull := fun same =>
    allocated.notNull (List.mem_append_right _ (List.mem_singleton.mpr same.symm))
  obtain ⟨m', backed⟩ := firstPage_backed laid physical built map none answered
  obtain ⟨mem, _, filled, _⟩ := writeEnt_backed laid physical elsewhere backed 0 0 (by decide : khStart % 16 = 0)
    (Nat.le_refl _) (by decide : khStart + khEntSize ≤ heapPage 1)
  refine ⟨k.firstPage.setMem mem, ?_, answered.notNull⟩
  rw [KernelMem.kheapInit_eq, if_neg null, filled]
  rfl

/-- A call that finds a place takes no page. -/
theorem kheapAlloc_takes (laid : Laid regions) (physical : ∀ page, Managed regions page → page + 4096 ≤ 2 ^ 52)
    (elsewhere : Elsewhere calls) (small : n ≤ khMaxNpages * pageSize)
    (backed : Backed regions held final calls root k m others frames) (headed : Headed k frames kh blocks)
    (found : Bwuhos.findFree fuel kh n = some new) (notNull : new ≠ 0) :
    ∃ after, KernelMem.kheapAlloc fuel n k = .ok (new + khEntSize, after) ∧ after.phys.answers = k.phys.answers := by
  obtain ⟨after, appended, _⟩ := Allocated.appended laid physical elsewhere backed headed
    ((findFree_fits headed.shape small found).resolve_left notNull)
  have same := @KernelMem.returned_answers k n new (new + khEntSize)
  refine ⟨after, ?_, ?_⟩
  · rw [KernelMem.kheapAlloc_eq, KernelMem.takeOrGrow, findFree_backed laid physical elsewhere backed headed, found]
    exact (if_neg notNull).trans appended
  · exact (congrArg (fun r => (KernelMem.ending Prod.snd r).phys.answers) appended).symm.trans same

end

theorem firstHeap_findFree (page : Nat) : Bwuhos.findFree 2 (firstHeap page) 100 = some (khStart + 32) := by
  have same : Bwuhos.findFree 2 (firstHeap page) 100 = Bwuhos.findFree 2 (firstHeap 4096) 100 := rfl
  rw [same]
  decide

/-- With four frames to spare behind `vmm_init`, a first block of 100 bytes is handed out. -/
theorem firstBlock_reached {ents : List MemlEnt} {image : KernelImage} {mem : ByteMemory}
    (usable : ∀ ent ∈ ents, ent.Usable) (low : ∀ ent ∈ ents, ent.base + ent.size ≤ 2 ^ 47)
    (disjoint : ents.Pairwise MemlEnt.Disjoint) (loaded : image.Loaded)
    (enough : (staleFrames ents mem).card + (1 + kStkPages + tableCount (initVaddrs ents image)) + 4 ≤
      (managedPages ents).card) :
    ∃ kernel, (heapClients ents image mem).Reachable ⟨kernel, [⟨khStart + 48, 100⟩], fun _ => none⟩ ∧
      physAddrNull ∉ kernel.phys.answers := by
  have laid := pageBms_laid usable disjoint
  have physical := managed_physical usable low
  have managed : ∀ page ∈ managedPages ents, Managed (ents.map pageBm) page := fun _ => mem_managedPages.mp
  have mapped := (bootMem ents image mem).phys.alloc.2.pagingMap_answers (bootMem ents image mem).cr3
    (bootMem ents image mem).phys.alloc.1 khStart (x86Flags vfWrite)
  have start := pmmInit_mirrors usable disjoint mem (bootMem ents image mem).firstPage.phys.answers
  have booted := vmmInit_answered laid physical managed loaded low start rfl (by omega)
    ((PhysMem.alloc_answers _).trans mapped)
  obtain ⟨root, m, stack, map, length, _, built⟩ := vmmInit_built laid physical loaded low start rfl booted
  have elsewhere := initCalls_elsewhere usable low loaded length
  have vaddrs : (initCalls ents image stack).map PagingCall.vaddr = initVaddrs ents image := by
    rw [initCalls, List.map_append, List.map_append, pageCalls_vaddrs, pageCalls_vaddrs, stackCalls_vaddrs, length,
      initVaddrs, List.map_append]
  have count := built.count
  rw [vaddrs] at count
  obtain ⟨kernel, returned, notNull⟩ := @kheapInit_succeeds _ _ _ (bootMem ents image mem) m root _ _ laid physical
    elsewhere managed built map rfl (by rw [← count] at enough; exact enough)
  have answers := kheapInit_answers returned
  obtain ⟨m', page, backed, headed⟩ := @kheapInit_backed _ _ _ _ (bootMem ents image mem) kernel m root _ laid physical
    elsewhere built map rfl returned (answers ▸ ⟨List.prefix_refl _, notNull⟩)
  obtain ⟨after, taken, same⟩ := kheapAlloc_takes laid physical elsewhere (by decide) backed headed
    (firstHeap_findFree page) (by decide)
  have starts : (heapClients ents image mem).initial ⟨kernel, [], fun _ => none⟩ := ⟨returned, rfl, rfl⟩
  have step : (heapClients ents image mem).step ⟨kernel, [], fun _ => none⟩ (.alloc 100)
      ⟨after, [⟨khStart + 48, 100⟩], fun _ => none⟩ := ⟨by decide, rfl, 2, _, taken, rfl⟩
  exact ⟨after, .step (.initial starts) step, same ▸ notNull⟩

/-- A byte of the first block, on a machine with 128 KiB of memory. -/
theorem heap_served_firstBlock : ∃ use, HeapServed
    (bootMem [{ base := 0x100000, size := 0x20000 }] smallImage fun _ => 0#8) use ∧
      use.areas = [⟨khStart + 48, 100⟩] ∧ use.kernel.readByte (khStart + 48) = some 7#8 := by
  have usable : ∀ ent ∈ [({ base := 0x100000, size := 0x20000 } : MemlEnt)], ent.Usable := by
    intro ent member
    cases List.mem_singleton.mp member
    exact ⟨by decide, by decide, by decide⟩
  have low : ∀ ent ∈ [({ base := 0x100000, size := 0x20000 } : MemlEnt)], ent.base + ent.size ≤ 2 ^ 47 := by decide
  have disjoint : [({ base := 0x100000, size := 0x20000 } : MemlEnt)].Pairwise MemlEnt.Disjoint :=
    List.pairwise_singleton _ _
  have loaded : smallImage.Loaded := ⟨by decide, by decide, by decide, by decide, by decide⟩
  obtain ⟨kernel, reached, supplied⟩ := @firstBlock_reached _ _ (fun _ => 0#8) usable low disjoint loaded
    (by decide +kernel)
  have holds : (⟨khStart + 48, 100⟩ : Area).Holds (khStart + 48) := ⟨Nat.le_refl _, by decide⟩
  have before := heap_served usable low disjoint loaded reached supplied
  have accepts := before.accepts _ (List.mem_singleton_self _) _ holds
  obtain ⟨written, wrote⟩ := Option.isSome_iff_exists.mp (accepts 7#8)
  have step : (heapClients [{ base := 0x100000, size := 0x20000 }] smallImage fun _ => 0#8).step
      ⟨kernel, [⟨khStart + 48, 100⟩], fun _ => none⟩ (.write (khStart + 48) 7#8)
      ⟨written, [⟨khStart + 48, 100⟩], Function.update (fun _ => none) (khStart + 48) (some 7#8)⟩ :=
    ⟨⟨_, List.mem_singleton_self _, holds⟩, wrote, rfl, rfl⟩
  have same : written.phys.answers = kernel.phys.answers := by
    obtain ⟨place, _, rfl⟩ := Option.map_eq_some_iff.mp wrote
    rfl
  have served := heap_served usable low disjoint loaded (reached.step step) (same ▸ supplied)
  refine ⟨_, served, rfl, served.kept (khStart + 48) 7#8 ?_⟩
  exact Function.update_self (khStart + 48) (some 7#8) fun _ => none

end Bwuhos
