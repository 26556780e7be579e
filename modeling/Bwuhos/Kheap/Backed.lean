import Bwuhos.Kheap.Physical
import Bwuhos.Vmm.Frames
import Bwuhos.Vmm.Mapped

namespace Bwuhos

open Bwuhos.Data

/-! # The frames behind the kernel heap

Every page of the heap window is mapped for writing to a frame that `pmm_alloc` answered with
and that is no page table, so the heap is memory of its own at its virtual addresses.
-/

def heapPage (index : Nat) : Nat := khStart + pageSize * index

def heapCalls (frames : List Nat) : List PagingCall :=
  frames.mapIdx fun index frame => .map frame (heapPage index) (x86Flags vfWrite)

/-- The address lies in the pages of the heap, when they are so many. -/
def InHeap (pages vaddr : Nat) : Prop := khStart ≤ vaddr ∧ vaddr < heapPage pages

/-- Where an address of the heap lies in physical memory. -/
def spot (frames : List Nat) (vaddr : Nat) : Nat := frames.getD ((vaddr - khStart) / pageSize) 0 + vaddr % pageSize

/-- The memory of the heap by its virtual addresses. -/
def heapMem (s : PhysMem) (frames : List Nat) : ByteMemory := fun vaddr => s.pmm.mem (spot frames vaddr)

theorem heapMem_setMem (k : KernelMem) (mem : ByteMemory) (frames : List Nat) (vaddr : Nat) :
    heapMem (k.setMem mem).phys frames vaddr = mem (spot frames vaddr) := rfl

/-- All the calls map pages for writing, and none maps a page of the heap window. -/
structure Elsewhere (calls : List PagingCall) : Prop where
  writable : ∀ call ∈ calls, call.writable = some true
  outside : ∀ call ∈ calls, ∀ index < khMaxNpages, virtualPage call.vaddr ≠ virtualPage (heapPage index)

/-- Calls about other pages leave a page with the frame that it had. -/
theorem foldl_write_apart {calls : List PagingCall} {page : Nat} (view : Nat → Option Nat)
    (apart : ∀ call ∈ calls, virtualPage call.vaddr ≠ page) : calls.foldl PagingCall.write view page = view page := by
  induction calls generalizing view with
  | nil => rfl
  | cons call rest ih =>
      rw [List.foldl_cons, ih _ fun other member => apart other (List.mem_cons_of_mem _ member), PagingCall.write_eq]
      exact Function.update_of_ne (apart call List.mem_cons_self).symm _ _

section

variable {vaddr other index pages frame : Nat} {frames : List Nat}

theorem virtualPage_heap (inside : InHeap khMaxNpages vaddr) :
    virtualPage vaddr = 0xfbbb00000 + (vaddr - khStart) / 4096 := by
  obtain ⟨low, high⟩ := inside
  unfold heapPage khMaxNpages pageSize at high
  unfold khStart at low high ⊢
  unfold virtualPage
  omega

theorem inHeap_heapPage (bound : index < pages) : InHeap pages (heapPage index) := by
  unfold InHeap heapPage pageSize
  omega

theorem virtualPage_heapPage (bound : index < khMaxNpages) : virtualPage (heapPage index) = 0xfbbb00000 + index := by
  rw [virtualPage_heap (inHeap_heapPage bound), heapPage, pageSize]
  omega

theorem InHeap.mono {more : Nat} (inside : InHeap pages vaddr) (less : pages ≤ more) : InHeap more vaddr := by
  unfold InHeap heapPage pageSize at inside ⊢
  omega

theorem InHeap.index_lt (inside : InHeap frames.length vaddr) : (vaddr - khStart) / 4096 < frames.length := by
  unfold InHeap heapPage pageSize at inside
  omega

/-- The frame that an address of the heap lies in, and where. -/
theorem InHeap.spot_eq (inside : InHeap frames.length vaddr) :
    ∃ index, ∃ bound : index < frames.length,
      spot frames vaddr = frames[index] + vaddr % 4096 ∧ vaddr / 4096 = 0xfffffbbb00000 + index := by
  refine ⟨(vaddr - khStart) / 4096, inside.index_lt, ?_, ?_⟩
  · rw [spot, pageSize, List.getD_eq_getElem?_getD, List.getElem?_eq_getElem inside.index_lt, Option.getD_some]
  · have low := inside.1
    unfold khStart at low ⊢
    omega

theorem spot_append (inside : InHeap frames.length vaddr) : spot (frames ++ [frame]) vaddr = spot frames vaddr := by
  rw [spot, spot, pageSize, List.getD_eq_getElem?_getD, List.getD_eq_getElem?_getD,
    List.getElem?_append_left inside.index_lt]

theorem heapCalls_concat (frames : List Nat) (frame : Nat) : heapCalls (frames ++ [frame]) =
    heapCalls frames ++ [.map frame (heapPage frames.length) (x86Flags vfWrite)] :=
  List.mapIdx_concat

/-- The heap reads as before where its frames do. -/
theorem heapMem_append {before after : PhysMem} (kept : ∀ frame ∈ frames, ∀ addr, InPage frame addr →
    after.pmm.mem addr = before.pmm.mem addr) (inside : InHeap frames.length vaddr) :
    heapMem after (frames ++ [frame]) vaddr = heapMem before frames vaddr := by
  obtain ⟨index, bound, there, _⟩ := inside.spot_eq
  have inPage : InPage frames[index] (spot frames vaddr) := by
    rw [there]
    unfold InPage
    omega
  rw [heapMem, heapMem, spot_append inside]
  exact kept _ (List.getElem_mem bound) _ inPage

/-- Addresses of the heap whose places share a frame lie as far apart as their places do. -/
theorem spot_near (aligned : ∀ frame ∈ frames, frame % 4096 = 0) (distinct : frames.Nodup)
    (here : InHeap frames.length vaddr) (there : InHeap frames.length other)
    (near : spot frames vaddr / 4096 = spot frames other / 4096) :
    vaddr / 4096 = other / 4096 ∧ spot frames vaddr % 4096 = vaddr % 4096 := by
  obtain ⟨index, bound, place, page⟩ := here.spot_eq
  obtain ⟨otherIndex, otherBound, otherPlace, otherPage⟩ := there.spot_eq
  have first := aligned _ (List.getElem_mem bound)
  have second := aligned _ (List.getElem_mem otherBound)
  have same : frames[index] = frames[otherIndex] := by omega
  have indices := (distinct.getElem_inj_iff).mp same
  omega

theorem spot_add {position : Nat} (above : khStart ≤ vaddr) (aligned : vaddr % 8 = 0) (small : position < 8) :
    spot frames (vaddr + position) = spot frames vaddr + position := by
  have page : (vaddr + position - khStart) / 4096 = (vaddr - khStart) / 4096 := by
    unfold khStart at above ⊢
    omega
  simp only [spot, pageSize, page]
  omega

end

/-- The heap has these frames, on a map that began with other mappings. -/
structure Backed (regions : List Bitmap) (held : Finset Nat) (final : List Nat) (base : List PagingCall) (root : Nat)
    (k : KernelMem) (m : PagingMem) (others : Nat) (frames : List Nat) : Prop where
  built : Built regions held final k.phys m root others (base ++ heapCalls frames)
  map : k.cr3 = 4096 * root
  npages : k.khNpages = frames.length
  bounded : frames.length ≤ khMaxNpages
  given : ∀ frame ∈ frames, frame ∈ k.phys.answers
  distinct : frames.Nodup
  noTable : ∀ frame ∈ frames, NoTable m root frame

namespace Backed

variable {regions : List Bitmap} {held : Finset Nat} {final : List Nat} {base : List PagingCall} {k : KernelMem}
  {m : PagingMem} {root others vaddr value : Nat} {frames : List Nat} {mem : ByteMemory}
  (laid : Laid regions) (physical : ∀ page, Managed regions page → page + 4096 ≤ 2 ^ 52) (elsewhere : Elsewhere base)
  (backed : Backed regions held final base root k m others frames)

section Translation

theorem call_writable (frames : List Nat) (elsewhere : Elsewhere base) :
    ∀ call ∈ base ++ heapCalls frames, call.writable = some true := by
  intro call member
  have writes : (x86Flags vfWrite).testBit 1 = true := by decide
  obtain earlier | inHeap := List.mem_append.mp member
  · exact elsewhere.writable call earlier
  · obtain ⟨index, bound, rfl⟩ := List.mem_mapIdx.mp inHeap
    exact congrArg some writes

include backed

theorem translate_eq : translate k.phys.load k.cr3 vaddr =
    (base ++ heapCalls frames).foldl PagingCall.write (fun _ => none) (virtualPage vaddr) := by
  rw [backed.map, backed.built.mirrors.translate backed.built.refines.valid, backed.built.refines.translates]

/-- No page but those of the heap has a new translation. -/
theorem translate_elsewhere (outside : ∀ index < frames.length, virtualPage vaddr ≠ virtualPage (heapPage index)) :
    translate k.phys.load k.cr3 vaddr = base.foldl PagingCall.write (fun _ => none) (virtualPage vaddr) := by
  rw [backed.translate_eq, List.foldl_append]
  refine foldl_write_apart _ fun call member => ?_
  obtain ⟨index, bound, rfl⟩ := List.mem_mapIdx.mp member
  exact (outside index bound).symm

include elsewhere

theorem allWritable (about : ∃ call ∈ base ++ heapCalls frames, virtualPage call.vaddr = virtualPage vaddr) :
    EffectivelyWritable k.phys.load k.cr3 vaddr := by
  rw [backed.map]
  exact backed.built.mirrors.effectivelyWritable backed.built.refines.valid
    (backed.built.permitted.allWritable (call_writable frames elsewhere) about)

theorem writable {frame : Nat} (mapped : translate k.phys.load k.cr3 vaddr = some frame) :
    EffectivelyWritable k.phys.load k.cr3 vaddr := by
  refine backed.allWritable elsewhere (by_contra fun never => ?_)
  rw [backed.translate_eq, foldl_write_apart _ fun call member same => never ⟨call, member, same⟩] at mapped
  cases mapped

include laid physical

theorem heap_page {index : Nat} (bound : index < frames.length)
    (page : virtualPage vaddr = virtualPage (heapPage index)) :
    translate k.phys.load k.cr3 vaddr = some frames[index] ∧ EffectivelyWritable k.phys.load k.cr3 vaddr := by
  have inWindow := Nat.lt_of_lt_of_le bound backed.bounded
  have mapped : PagingCall.map frames[index] (heapPage index) (x86Flags vfWrite) ∈ base ++ heapCalls frames :=
    List.mem_append_right _ (List.mem_mapIdx.mpr ⟨index, bound, rfl⟩)
  refine ⟨?_, backed.allWritable elsewhere ⟨_, mapped, page.symm⟩⟩
  rw [backed.map]
  refine backed.built.translate_agreed ⟨_, mapped, page.symm⟩ fun call member same => ?_
  rw [page] at same
  obtain earlier | inHeap := List.mem_append.mp member
  · exact absurd same (elsewhere.outside call earlier index inWindow)
  · obtain ⟨other, otherBound, rfl⟩ := List.mem_mapIdx.mp inHeap
    rw [PagingCall.vaddr, virtualPage_heapPage inWindow,
      virtualPage_heapPage (Nat.lt_of_lt_of_le otherBound backed.bounded)] at same
    obtain rfl := Nat.add_left_cancel same
    have managed := backed.built.mirrors.managed (backed.given _ (List.getElem_mem otherBound))
    exact congrArg some (managed_pageOf laid physical managed)

/-- An address of the heap is read and written at its place. -/
theorem place (inside : InHeap frames.length vaddr) :
    k.place vaddr = some (spot frames vaddr) ∧ k.placeToWrite vaddr = some (spot frames vaddr) := by
  obtain ⟨index, bound, there, page⟩ := inside.spot_eq
  have samePage : virtualPage vaddr = virtualPage (heapPage index) := by
    unfold virtualPage heapPage pageSize khStart
    omega
  obtain ⟨mapped, entries, walk, all⟩ := backed.heap_page laid physical elsewhere bound samePage
  have read : k.place vaddr = some (spot frames vaddr) := by
    rw [KernelMem.place, mapped, there]
    rfl
  refine ⟨read, ?_⟩
  rw [KernelMem.placeToWrite, walk, Option.bind_some, if_pos (List.all_eq_true.mpr all), read]

end Translation

section Memory

include laid

theorem aligned (backed : Backed regions held final base root k m others frames) :
    ∀ frame ∈ frames, frame % 4096 = 0 := fun frame member =>
  Mirrors.aligned laid (backed.built.mirrors.managed (backed.given frame member))

include backed

/-- `pmm_alloc` answers with none of the frames of the heap. -/
theorem alloc_new (allocated : Answered final k.phys.alloc.2.answers) : k.phys.alloc.1 ∉ frames := by
  intro member
  have nodup := (backed.built.alloc laid allocated).2.mirrors.nodup
  rw [PhysMem.alloc, List.nodup_append] at nodup
  exact nodup.2.2 _ (backed.given _ member) _ (List.mem_singleton_self _) rfl

/-- Whatever is written to a page of the heap, the heap stays as it is. -/
theorem change (inside : InHeap frames.length vaddr)
    (kept : ∀ addr, addr / 4096 ≠ spot frames vaddr / 4096 → mem addr = k.phys.pmm.mem addr) :
    ∃ m', Backed regions held final base root (k.setMem mem) m' others frames := by
  obtain ⟨index, bound, there, _⟩ := inside.spot_eq
  have member := List.getElem_mem bound
  have aligned := backed.aligned laid _ member
  have managed := backed.built.mirrors.managed (backed.given _ member)
  have elsewhereKept : ∀ addr, ¬InPage frames[index] addr → mem addr = k.phys.pmm.mem addr := fun addr outside => by
    refine kept addr fun near => outside ?_
    unfold InPage
    omega
  obtain ⟨built, same⟩ := backed.built.scribble laid managed (backed.noTable _ member) elsewhereKept
  refine ⟨_, built, backed.map, backed.npages, backed.bounded, backed.given, backed.distinct, ?_⟩
  intro frame inFrames path within table reached
  exact backed.noTable frame inFrames path within table ((same.tables path within).symm.trans reached)

include physical elsewhere

theorem load (inside : InHeap frames.length vaddr) (aligned : vaddr % 8 = 0) :
    k.load vaddr = .ok ((heapMem k.phys frames).loadInt vaddr 8) := by
  rw [KernelMem.load, (backed.place laid physical elsewhere inside).1]
  refine congrArg Except.ok (ByteMemory.loadInt_moved fun position small => ?_)
  rw [heapMem, spot_add inside.1 aligned small]

theorem store (inside : InHeap frames.length vaddr) (aligned : vaddr % 8 = 0) (value : Nat) :
    ∃ mem m', k.store vaddr value = .ok (k.setMem mem) ∧
      Backed regions held final base root (k.setMem mem) m' others frames ∧
      ∀ cell, InHeap frames.length cell →
        heapMem (k.setMem mem).phys frames cell = (heapMem k.phys frames).storeInt vaddr 8 value cell := by
  have frameAligned := backed.aligned laid
  have near := (spot_near frameAligned backed.distinct inside inside rfl).2
  have outside : ∀ addr, addr / 4096 ≠ spot frames vaddr / 4096 →
      k.phys.pmm.mem.storeInt (spot frames vaddr) 8 value addr = k.phys.pmm.mem addr :=
    fun addr apart => ByteMemory.storeInt_outside (by omega)
  obtain ⟨m', kept⟩ := backed.change laid inside outside
  refine ⟨_, m', ?_, kept, fun cell inHeap => ?_⟩
  · rw [KernelMem.store, (backed.place laid physical elsewhere inside).2]
    rfl
  · by_cases written : vaddr ≤ cell ∧ cell < vaddr + 8
    · obtain ⟨position, rfl⟩ := Nat.exists_eq_add_of_le written.1
      have small : position < 8 := by omega
      have there := @spot_add vaddr frames position inside.1 aligned small
      rw [heapMem_setMem, there, ByteMemory.storeInt, if_pos ⟨by omega, by omega⟩, ByteMemory.storeInt, if_pos written,
        Nat.add_sub_cancel_left, Nat.add_sub_cancel_left]
    · rw [ByteMemory.storeInt_outside written, heapMem_setMem]
      refine ByteMemory.storeInt_outside fun overlap => written ?_
      have cellNear := spot_near frameAligned backed.distinct inHeap inside (by omega)
      omega

/-- A byte of the heap is written. -/
theorem writeByte (inside : InHeap frames.length vaddr) (byte : BitVec 8) :
    ∃ mem m', k.writeByte vaddr byte = some (k.setMem mem) ∧
      Backed regions held final base root (k.setMem mem) m' others frames ∧
      ∀ cell, InHeap frames.length cell →
        heapMem (k.setMem mem).phys frames cell = Function.update (heapMem k.phys frames) vaddr byte cell := by
  have outside : ∀ addr, addr / 4096 ≠ spot frames vaddr / 4096 →
      Function.update k.phys.pmm.mem (spot frames vaddr) byte addr = k.phys.pmm.mem addr :=
    fun addr apart => Function.update_of_ne (fun same => apart (congrArg (· / 4096) same)) _ _
  obtain ⟨m', kept⟩ := backed.change laid inside outside
  refine ⟨_, m', ?_, kept, fun cell inHeap => ?_⟩
  · rw [KernelMem.writeByte, (backed.place laid physical elsewhere inside).2]
    rfl
  · by_cases here : cell = vaddr
    · rw [here, heapMem_setMem, Function.update_self, Function.update_self]
    · have apart : spot frames cell ≠ spot frames vaddr := fun same => here <| by
        have near := spot_near (backed.aligned laid) backed.distinct inHeap inside (congrArg (· / 4096) same)
        have back := spot_near (backed.aligned laid) backed.distinct inside inHeap (congrArg (· / 4096) same.symm)
        omega
      rw [Function.update_of_ne here, heapMem_setMem, Function.update_of_ne apart, heapMem]

theorem readByte (inside : InHeap frames.length vaddr) : k.readByte vaddr = some (heapMem k.phys frames vaddr) := by
  rw [KernelMem.readByte, (backed.place laid physical elsewhere inside).1]
  rfl

omit elsewhere in
/-- One more page is mapped behind those that there are. -/
theorem mapPage (room : frames.length < khMaxNpages)
    (answered : Answered final
      (k.phys.alloc.2.vmmMap k.cr3 k.phys.alloc.1 (heapPage frames.length) vfWrite).answers) :
    ∃ m', Backed regions held final base root
        { k with phys := k.phys.alloc.2.vmmMap k.cr3 k.phys.alloc.1 (heapPage frames.length) vfWrite
                 khNpages := frames.length + 1 } m' (others + 1) (frames ++ [k.phys.alloc.1]) ∧
      ∀ cell, InHeap frames.length cell →
        heapMem (k.phys.alloc.2.vmmMap k.cr3 k.phys.alloc.1 (heapPage frames.length) vfWrite)
          (frames ++ [k.phys.alloc.1]) cell = heapMem k.phys frames cell := by
  have small : x86Flags vfWrite < 64 := by decide
  have grows := k.phys.alloc.2.pagingMap_answers k.cr3 k.phys.alloc.1 (heapPage frames.length) (x86Flags vfWrite)
  have allocated := answered.before grows
  obtain ⟨managed, taken⟩ := backed.built.alloc laid allocated
  obtain ⟨newNoTable, allocKeeps⟩ := backed.built.alloc_spares laid allocated
  have bound : k.phys.alloc.1 < 2 ^ 52 := by
    have inPhysical := physical _ managed
    omega
  rw [PhysMem.vmmMap, backed.map] at *
  have givenBy : ∀ frame ∈ frames ++ [k.phys.alloc.1], frame ∈ k.phys.alloc.2.answers := fun frame member =>
    (List.mem_append.mp member).elim (fun old => k.phys.alloc_answers.subset (backed.given frame old)) fun single =>
      List.mem_append_right _ single
  have noTable : ∀ frame ∈ frames ++ [k.phys.alloc.1], NoTable m root frame := fun frame member =>
    (List.mem_append.mp member).elim (backed.noTable frame) fun single =>
      (List.mem_singleton.mp single).symm ▸ newNoTable
  have spares : ∀ frame ∈ frames ++ [k.phys.alloc.1], _ := fun frame member =>
    taken.map_spares laid physical bound small answered (givenBy frame member) (noTable frame member)
  have next := taken.map laid physical bound small answered
  rw [List.append_assoc, ← heapCalls_concat] at next
  refine ⟨_, ⟨next, rfl, ?_, ?_, ?_, ?_, fun frame member => (spares frame member).1⟩, fun cell inHeap => ?_⟩
  · rw [List.length_append, List.length_singleton]
  · rw [List.length_append, List.length_singleton]
    exact room
  · exact fun frame member => grows.subset (givenBy frame member)
  · exact List.nodup_append.mpr ⟨backed.distinct, List.nodup_singleton _, fun frame old other single same =>
      backed.alloc_new laid allocated (List.mem_singleton.mp single ▸ same ▸ old)⟩
  · refine heapMem_append (fun frame member addr inside => ?_) inHeap
    refine ((spares frame (List.mem_append_left _ member)).2 addr inside).trans (allocKeeps _ ⟨_, ?_, inside⟩)
    exact backed.built.mirrors.managed (backed.given _ member)

end Memory

end Backed

end Bwuhos
