import Bwuhos.Vmm.Supply

namespace Bwuhos

open Bwuhos.Data

/-! # What the mappings of `vmm_init` agree on -/

section Pages

variable {ents : List MemlEnt} {image : KernelImage} {frames : List Nat} {call : PagingCall} {addr offset index : Nat}

/-- A mapping of `vmm_init` maps a page below 2^47 to itself, a page of the kernel image or
a page of the stack. -/
theorem initCalls_cases (usable : ∀ ent ∈ ents, ent.Usable) (low : ∀ ent ∈ ents, ent.base + ent.size ≤ 2 ^ 47)
    (member : call ∈ initCalls ents image frames) :
    (∃ addr flags, call = .map addr addr flags ∧ flags.testBit 1 = true ∧ addr % 4096 = 0 ∧ addr < 2 ^ 47) ∨
      (∃ offset < image.size, offset % pageSize = 0 ∧ call =
        .map (u64 (image.physicalBase + offset)) (u64 (image.virtualBase + offset)) (x86Flags vfWrite)) ∨
      ∃ index, ∃ bound : index < frames.length, call = .map frames[index] (stackPage index) (x86Flags vfWrite) := by
  have writes : (x86Flags vfWrite).testBit 1 = true := by decide
  rw [initCalls, List.mem_append, List.mem_append] at member
  rcases member with (inMegabyte | inPages) | inStack
  · obtain ⟨page, inList, rfl⟩ := List.mem_map.mp inMegabyte
    obtain ⟨number, inRange, rfl⟩ := List.mem_map.mp inList
    have few : number < 256 := List.mem_range.mp inRange
    exact Or.inl ⟨_, _, rfl, by decide, Nat.mul_mod_right 4096 number, by unfold pageSize; omega⟩
  · obtain ⟨page, inList, rfl⟩ := List.mem_map.mp inPages
    rcases List.mem_append.mp inList with inKernel | inUsable
    · obtain ⟨offset, inImage, rfl⟩ := List.mem_map.mp inKernel
      obtain ⟨aligned, below⟩ := mem_pageOffsets.mp inImage
      exact Or.inr (Or.inl ⟨offset, below, aligned, rfl⟩)
    · obtain ⟨ent, inEnts, ofEnt⟩ := List.mem_flatMap.mp inUsable
      obtain ⟨offset, inEnt, rfl⟩ := List.mem_map.mp ofEnt
      obtain ⟨aligned, below⟩ := mem_pageOffsets.mp inEnt
      have base := (usable ent inEnts).aligned
      have last := low ent inEnts
      unfold pageSize at aligned base
      have exact := u64_of_lt (by omega : ent.base + offset < 2 ^ 64)
      exact Or.inl ⟨_, _, rfl, writes, by omega, by omega⟩
  · obtain ⟨index, bound, rfl⟩ := List.mem_mapIdx.mp inStack
    exact Or.inr (Or.inr ⟨index, bound, rfl⟩)

theorem initPages_mapped (frames : List Nat) {page : Nat × Nat} (member : page ∈ initPages ents image) :
    .map page.1 page.2 (x86Flags vfWrite) ∈ initCalls ents image frames :=
  List.mem_append_left _ (List.mem_append_right _ (List.mem_map_of_mem member))

theorem virtualPage_low (low : addr < 2 ^ 47) : virtualPage addr = addr / 4096 := by
  unfold virtualPage
  omega

theorem KernelImage.Loaded.virtualPage (loaded : image.Loaded) (inside : offset < image.size) :
    Bwuhos.virtualPage (u64 (image.virtualBase + offset)) = (image.virtualBase + offset) / 4096 -
      (2 ^ 52 - 2 ^ 36) := by
  rw [loaded.size_eq] at inside
  have top := loaded.top
  have fits := loaded.fits
  rw [u64_of_lt (by omega)]
  unfold Bwuhos.virtualPage
  omega

theorem virtualPage_stack (bound : index < kStkPages) :
    virtualPage (stackPage index) = 2 ^ 36 - 0xc0000 + index := by
  unfold kStkPages at bound
  unfold virtualPage stackPage kStkBase pageSize
  omega

section Agreed

variable (usable : ∀ ent ∈ ents, ent.Usable) (low : ∀ ent ∈ ents, ent.base + ent.size ≤ 2 ^ 47) (loaded : image.Loaded)
  (length : frames.length = kStkPages)
include usable low loaded length

theorem identity_agreed (below : addr < 2 ^ 47) (member : call ∈ initCalls ents image frames)
    (same : virtualPage call.vaddr = virtualPage addr) : call.frame = some (pageOf addr) := by
  rw [virtualPage_low below] at same
  rcases initCalls_cases usable low member with ⟨source, flags, rfl, _, aligned, lowSource⟩ |
    ⟨offset, inside, _, rfl⟩ | ⟨index, bound, rfl⟩
  · rw [PagingCall.vaddr, virtualPage_low lowSource] at same
    rw [PagingCall.frame, pageOf_eq (by omega), pageOf_eq (by omega), same]
  · have top := loaded.top
    rw [PagingCall.vaddr, loaded.virtualPage inside] at same
    omega
  · rw [PagingCall.vaddr, virtualPage_stack (length ▸ bound)] at same
    omega

theorem kernel_agreed (inside : offset < image.size) (aligned : offset % pageSize = 0)
    (member : call ∈ initCalls ents image frames)
    (same : virtualPage call.vaddr = virtualPage (u64 (image.virtualBase + offset))) :
    call.frame = some (pageOf (image.physicalBase + offset)) := by
  have top := loaded.top
  have fits := loaded.fits
  have physical := loaded.physical
  have size := loaded.size_eq
  unfold pageSize at aligned
  rw [loaded.virtualPage inside] at same
  rcases initCalls_cases usable low member with ⟨source, flags, rfl, _, _, lowSource⟩ |
    ⟨other, otherInside, otherAligned, rfl⟩ | ⟨index, bound, rfl⟩
  · rw [PagingCall.vaddr, virtualPage_low lowSource] at same
    omega
  · rw [PagingCall.vaddr, loaded.virtualPage otherInside] at same
    unfold pageSize at otherAligned
    have equal : other = offset := by omega
    rw [PagingCall.frame, equal, u64_of_lt (by omega)]
  · rw [PagingCall.vaddr, virtualPage_stack (length ▸ bound)] at same
    unfold kStkPages at length
    omega

theorem stack_agreed (bound : index < frames.length) (pages : ∀ frame ∈ frames, pageOf frame = frame)
    (member : call ∈ initCalls ents image frames)
    (same : virtualPage call.vaddr = virtualPage (stackPage index)) :
    call.frame = some frames[index] := by
  rw [virtualPage_stack (length ▸ bound)] at same
  rcases initCalls_cases usable low member with ⟨source, flags, rfl, _, _, lowSource⟩ |
    ⟨offset, inside, _, rfl⟩ | ⟨other, otherBound, rfl⟩
  · rw [PagingCall.vaddr, virtualPage_low lowSource] at same
    omega
  · have top := loaded.top
    rw [PagingCall.vaddr, loaded.virtualPage inside] at same
    unfold kStkPages at length
    omega
  · rw [PagingCall.vaddr, virtualPage_stack (length ▸ otherBound)] at same
    have equal : other = index := by omega
    subst equal
    rw [PagingCall.frame, pages _ (List.getElem_mem bound)]

end Agreed

theorem initCalls_writable (usable : ∀ ent ∈ ents, ent.Usable) (low : ∀ ent ∈ ents, ent.base + ent.size ≤ 2 ^ 47)
    (member : call ∈ initCalls ents image frames) : call.writable = some true := by
  have writes : (x86Flags vfWrite).testBit 1 = true := by decide
  rcases initCalls_cases usable low member with ⟨_, flags, rfl, set, _⟩ | ⟨_, _, _, rfl⟩ | ⟨_, _, rfl⟩
  · exact congrArg some set
  · exact congrArg some writes
  · exact congrArg some writes

/-- Every page of a usable entry is mapped. -/
theorem usable_mapped {ent : MemlEnt} (member : ent ∈ ents) (usable : ent.Usable) (low : ent.base + ent.size ≤ 2 ^ 47)
    (above : ent.base ≤ addr) (below : addr < ent.base + ent.size) :
    ∃ call ∈ initCalls ents image frames, virtualPage call.vaddr = virtualPage addr := by
  have aligned := usable.aligned
  unfold pageSize at aligned
  have inEnt : (addr - ent.base) / 4096 * 4096 ∈ pageOffsets ent.size :=
    mem_pageOffsets.mpr ⟨Nat.mul_mod_left _ _, by omega⟩
  have inPages : (u64 (ent.base + (addr - ent.base) / 4096 * 4096), u64 (ent.base + (addr - ent.base) / 4096 * 4096)) ∈
      initPages ents image := List.mem_append_right _ (List.mem_flatMap.mpr ⟨ent, member, List.mem_map_of_mem inEnt⟩)
  refine ⟨_, initPages_mapped frames inPages, ?_⟩
  rw [PagingCall.vaddr, u64_of_lt (by omega), virtualPage_low (by omega), virtualPage_low (by omega)]
  omega

theorem inBitmaps_usable (usable : ∀ ent ∈ ents, ent.Usable) (inBitmaps : InBitmaps (ents.map pageBm) addr) :
    ∃ ent ∈ ents, ent.base ≤ addr ∧ addr < ent.base + ent.size := by
  obtain ⟨bm, member, position, bound, rfl⟩ := inBitmaps
  obtain ⟨ent, inEnts, rfl⟩ := List.mem_map.mp member
  obtain ⟨data, inside⟩ := pageBm_inside (usable ent inEnts)
  have fits := (pageBm_placed (usable ent inEnts)).bitmapFits
  refine ⟨ent, inEnts, ?_⟩
  unfold BitArray.byteAddress
  omega

theorem managed_usable {page : Nat} (usable : ∀ ent ∈ ents, ent.Usable) (managed : Managed (ents.map pageBm) page) :
    ∃ ent ∈ ents, ent.base ≤ page ∧ page + 4096 ≤ ent.base + ent.size := by
  obtain ⟨bm, member, position, bound, rfl⟩ := managed
  obtain ⟨ent, inEnts, rfl⟩ := List.mem_map.mp member
  obtain ⟨data, inside⟩ := pageBm_inside (usable ent inEnts)
  have placed := pageBm_placed (usable ent inEnts)
  have fits := placed.bitmapFits
  refine ⟨ent, inEnts, ?_⟩
  rw [placed.frame_eq bound]
  omega

theorem pmmInit_mirrors (usable : ∀ ent ∈ ents, ent.Usable) (disjoint : ents.Pairwise MemlEnt.Disjoint)
    (mem : ByteMemory) (final : List Nat) :
    Mirrors (ents.map pageBm) (staleFrames ents mem) final { pmm := pmmInit ents mem, answers := [] }
      { mem := PhysMem.load { pmm := pmmInit ents mem, answers := [] }
        pmm := fun call => final.getD call physAddrNull
        taken := 0 } := by
  refine ⟨?_, .nil, ⟨List.nil_prefix, List.not_mem_nil⟩, rfl, rfl, fun _ _ _ _ => rfl⟩
  rw [List.toFinset_nil, Finset.union_empty]
  exact Owned.initStale (pageBms_laid usable disjoint)

theorem managed_physical (usable : ∀ ent ∈ ents, ent.Usable) (low : ∀ ent ∈ ents, ent.base + ent.size ≤ 2 ^ 47)
    (page : Nat)
    (managed : Managed (ents.map pageBm) page) : page + 4096 ≤ 2 ^ 52 := by
  obtain ⟨ent, inEnts, _, below⟩ := managed_usable usable managed
  have last := low ent inEnts
  omega

theorem managed_pageOf {regions : List Bitmap} {frame : Nat} (laid : Laid regions)
    (physical : ∀ page, Managed regions page → page + 4096 ≤ 2 ^ 52) (managed : Managed regions frame) :
    pageOf frame = frame := by
  have aligned := Mirrors.aligned laid managed
  have inPhysical := physical frame managed
  rw [pageOf_eq (by omega)]
  omega

/-- What `vmm_init` needs in order to get all the frames that it asks for. -/
theorem vmmInit_supplied (mem : ByteMemory) (usable : ∀ ent ∈ ents, ent.Usable)
    (low : ∀ ent ∈ ents, ent.base + ent.size ≤ 2 ^ 47) (disjoint : ents.Pairwise MemlEnt.Disjoint)
    (loaded : image.Loaded)
    (enough : (staleFrames ents mem).card + (1 + kStkPages + tableCount (initVaddrs ents image)) + 3 ≤
      (managedPages ents).card) :
    physAddrNull ∉ (vmmInit ents image { pmm := pmmInit ents mem, answers := [] }).2.answers :=
  (vmmInit_answered (pageBms_laid usable disjoint) (managed_physical usable low)
    (fun _ member => mem_managedPages.mp member) loaded low (pmmInit_mirrors usable disjoint mem _) rfl enough
    (List.prefix_refl _)).notNull

section Translations

variable {regions : List Bitmap} {held : Finset Nat} {final : List Nat} {s : PhysMem} {m : PagingMem}
  {root others vaddr frame : Nat} {calls : List PagingCall}

/-- Where calls about a page agree, its translation is theirs. -/
theorem Built.translate_agreed (built : Built regions held final s m root others calls)
    (about : ∃ call ∈ calls, virtualPage call.vaddr = virtualPage vaddr)
    (agreed : ∀ call ∈ calls, virtualPage call.vaddr = virtualPage vaddr → call.frame = some frame) :
    translate s.load (4096 * root) vaddr = some frame := by
  rw [built.mirrors.translate built.refines.valid, built.refines.translates]
  exact foldl_write_agreed about agreed

variable (built : Built regions held final s m root others (initCalls ents image frames))
  (usable : ∀ ent ∈ ents, ent.Usable) (low : ∀ ent ∈ ents, ent.base + ent.size ≤ 2 ^ 47) (loaded : image.Loaded)
  (length : frames.length = kStkPages)
include built usable low loaded length

theorem Built.usable_identity {ent : MemlEnt} (member : ent ∈ ents) (above : ent.base ≤ addr)
    (below : addr < ent.base + ent.size) : IdentityWritable s.load (4096 * root) addr := by
  have lowEnt := low ent member
  have about : ∃ call ∈ initCalls ents image frames, virtualPage call.vaddr = virtualPage addr :=
    usable_mapped member (usable ent member) lowEnt above below
  have writable := built.permitted.allWritable (fun call => initCalls_writable usable low) about
  exact ⟨built.translate_agreed about fun call inCalls => identity_agreed usable low loaded length (by omega) inCalls,
    built.mirrors.effectivelyWritable built.refines.valid writable⟩

theorem Built.kernel_translates (inside : offset < image.size) (aligned : offset % pageSize = 0)
    (page : virtualPage vaddr = virtualPage (image.virtualBase + offset)) :
    translate s.load (4096 * root) vaddr = some (pageOf (image.physicalBase + offset)) := by
  have fits : image.virtualBase + offset < 2 ^ 64 := by
    have top := loaded.fits
    rw [loaded.size_eq] at inside
    omega
  rw [← u64_of_lt fits] at page
  have inKernel : (u64 (image.physicalBase + offset), u64 (image.virtualBase + offset)) ∈ kernelPages image :=
    List.mem_map_of_mem (mem_pageOffsets.mpr ⟨aligned, inside⟩)
  have inCalls := initPages_mapped frames (List.mem_append_left (ents.flatMap entPages) inKernel)
  exact built.translate_agreed ⟨_, inCalls, page.symm⟩ fun call inCalls same =>
    kernel_agreed usable low loaded length inside aligned inCalls (same.trans page)

theorem Built.stack_translates (bound : index < frames.length) (pages : ∀ frame ∈ frames, pageOf frame = frame)
    (page : virtualPage vaddr = virtualPage (stackPage index)) :
    translate s.load (4096 * root) vaddr = some frames[index] := by
  have inStack : PagingCall.map frames[index] (stackPage index) (x86Flags vfWrite) ∈ stackCalls frames :=
    List.mem_mapIdx.mpr ⟨index, bound, rfl⟩
  have inCalls : _ ∈ initCalls ents image frames := List.mem_append_right _ inStack
  exact built.translate_agreed ⟨_, inCalls, page.symm⟩ fun call inCalls same =>
    stack_agreed usable low loaded length bound pages inCalls (same.trans page)

end Translations

end Pages

/-- In the map that `vmm_init` switches to, all usable memory is mapped to itself for
writing, the kernel image to where it was loaded, and the stack to eight frames of its own. -/
theorem vmmInit_maps (ents : List MemlEnt) (mem : ByteMemory) (image : KernelImage) (usable : ∀ ent ∈ ents, ent.Usable)
    (low : ∀ ent ∈ ents, ent.base + ent.size ≤ 2 ^ 47) (disjoint : ents.Pairwise MemlEnt.Disjoint)
    (loaded : image.Loaded)
    (supplied : physAddrNull ∉ (vmmInit ents image { pmm := pmmInit ents mem, answers := [] }).2.answers) :
    InitMapped ents image (vmmInit ents image { pmm := pmmInit ents mem, answers := [] }).1
      (vmmInit ents image { pmm := pmmInit ents mem, answers := [] }).2 := by
  have laid := pageBms_laid usable disjoint
  have physical := managed_physical usable low
  have start := pmmInit_mirrors usable disjoint mem
    (vmmInit ents image { pmm := pmmInit ents mem, answers := [] }).2.answers
  obtain ⟨root, m, frames, map, length, inOrder, built⟩ :=
    vmmInit_built laid physical loaded low start rfl ⟨List.prefix_refl _, supplied⟩
  generalize vmmInit ents image { pmm := pmmInit ents mem, answers := [] } = done at map inOrder built ⊢
  have identity (ent : MemlEnt) (member : ent ∈ ents) (addr : Nat) (above : ent.base ≤ addr)
      (below : addr < ent.base + ent.size) : IdentityWritable done.2.load (4096 * root) addr :=
    built.usable_identity usable low loaded length member above below
  rw [map]
  refine ⟨identity, ?_, ?_, ?_, frames, length, built.mirrors.nodup.sublist inOrder,
    fun _ member => inOrder.subset member, ?_⟩
  · intro addr inBitmaps
    obtain ⟨ent, member, above, below⟩ := inBitmaps_usable usable inBitmaps
    exact identity ent member addr above below
  · intro page managed addr above below
    obtain ⟨ent, member, lower, upper⟩ := managed_usable usable (mem_managedPages.mp managed)
    unfold pageSize at below
    exact identity ent member addr (by omega) (by omega)
  · intro offset inside aligned vaddr page
    exact built.kernel_translates usable low loaded length inside aligned page
  · intro index bound vaddr page
    have pages : ∀ frame ∈ frames, pageOf frame = frame := fun frame member =>
      managed_pageOf laid physical (built.mirrors.managed (inOrder.subset member))
    exact built.stack_translates usable low loaded length bound pages page

/-- A kernel image of a page and a half. -/
def smallImage : KernelImage where
  startVaddr := 0xffffffff80000000
  endVaddr := 0xffffffff80001800
  physicalBase := 0x200000
  virtualBase := 0xffffffff80000000

theorem vmmInit_maps_smallImage :
    InitMapped [{ base := 0x100000, size := 0x20000 }] smallImage
      (vmmInit [{ base := 0x100000, size := 0x20000 }] smallImage
        { pmm := pmmInit [{ base := 0x100000, size := 0x20000 }] fun _ => 0#8, answers := [] }).1
      (vmmInit [{ base := 0x100000, size := 0x20000 }] smallImage
        { pmm := pmmInit [{ base := 0x100000, size := 0x20000 }] fun _ => 0#8, answers := [] }).2 := by
  have usable : ∀ ent ∈ [({ base := 0x100000, size := 0x20000 } : MemlEnt)], ent.Usable := by
    intro ent member
    cases List.mem_singleton.mp member
    exact ⟨by decide, by decide, by decide⟩
  have low : ∀ ent ∈ [({ base := 0x100000, size := 0x20000 } : MemlEnt)], ent.base + ent.size ≤ 2 ^ 47 := by decide
  have disjoint : [({ base := 0x100000, size := 0x20000 } : MemlEnt)].Pairwise MemlEnt.Disjoint :=
    List.pairwise_singleton _ _
  have loaded : smallImage.Loaded := ⟨by decide, by decide, by decide, by decide, by decide⟩
  exact vmmInit_maps _ _ _ usable low disjoint loaded
    (vmmInit_supplied _ usable low disjoint loaded (by decide +kernel))

end Bwuhos
