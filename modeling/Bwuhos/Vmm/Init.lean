import Bwuhos.Paging.Physical
import Bwuhos.Pmm.Runs
import Bwuhos.Vmm

namespace Bwuhos

open Bwuhos.Data

/-! # The map that the kernel switches to

`vmm_init` maps the kernel image, the usable memory and a new stack.
-/

/-- The linker's symbols around the kernel image, and where the bootloader put it. -/
structure KernelImage where
  startVaddr : Nat
  endVaddr : Nat
  physicalBase : Nat
  virtualBase : Nat

namespace KernelImage

def size (image : KernelImage) : Nat := u64Sub image.endVaddr image.startVaddr

/-- The image lies in the top 2 GiB of the address space and in physical memory. -/
structure Loaded (image : KernelImage) : Prop where
  ordered : image.startVaddr ≤ image.endVaddr
  addressable : image.endVaddr < 2 ^ 64
  top : 2 ^ 64 - 2 ^ 31 ≤ image.virtualBase
  fits : image.virtualBase + (image.endVaddr - image.startVaddr) ≤ 2 ^ 64
  physical : image.physicalBase + (image.endVaddr - image.startVaddr) ≤ 2 ^ 52

theorem Loaded.size_eq {image : KernelImage} (loaded : image.Loaded) :
    image.size = image.endVaddr - image.startVaddr :=
  u64Sub_of_le loaded.ordered loaded.addressable

end KernelImage

def kStkPages : Nat := 8

def kStkBase : Nat := 0xffffffff40000000

/-- The offsets of the pages of `size` bytes, as a loop in steps of `PAGE_SIZE` counts them. -/
def pageOffsets (size : Nat) : List Nat := (List.range ((size + pageSize - 1) / pageSize)).map (pageSize * ·)

namespace PhysMem

def vmmCreateMap (s : PhysMem) : Nat × PhysMem := s.pagingCreateMap

def vmmMap (s : PhysMem) (map paddr vaddr flags : Nat) : PhysMem := s.pagingMap map paddr vaddr (x86Flags flags)

end PhysMem

def mapKernel (image : KernelImage) (map : Nat) (s : PhysMem) : PhysMem :=
  (pageOffsets image.size).foldl
    (fun s i => s.vmmMap map (u64 (image.physicalBase + i)) (u64 (image.virtualBase + i)) vfWrite) s

def mapUsable (ents : List MemlEnt) (map : Nat) (s : PhysMem) : PhysMem :=
  ents.foldl (fun s ent => (pageOffsets ent.size).foldl
    (fun s j => s.vmmMap map (u64 (ent.base + j)) (u64 (ent.base + j)) vfWrite) s) s

def mapStack (map : Nat) (s : PhysMem) : PhysMem :=
  (List.range kStkPages).foldl (fun s i =>
    let paddr := s.alloc
    paddr.2.vmmMap map paddr.1 (kStkBase + pageSize * i) vfWrite) s

/-- The map that `vmm_init` switches to, and memory as it is then. -/
def vmmInit (ents : List MemlEnt) (image : KernelImage) (s : PhysMem) : Nat × PhysMem :=
  let map := s.vmmCreateMap
  (map.1, mapStack map.1 (mapUsable ents map.1 (mapKernel image map.1 map.2)))

/-- The address translates to itself, and can be written. -/
def IdentityWritable (mem : Nat → Nat) (map addr : Nat) : Prop :=
  translate mem map addr = some (pageOf addr) ∧ EffectivelyWritable mem map addr

/-- What the map has to offer when the kernel switches to it.  The managed pages are all the
frames that `pmm_alloc` can return. -/
structure InitMapped (ents : List MemlEnt) (image : KernelImage) (map : Nat) (s : PhysMem) : Prop where
  usable : ∀ ent ∈ ents, ∀ addr, ent.base ≤ addr → addr < ent.base + ent.size → IdentityWritable s.load map addr
  bitmaps : ∀ addr, InBitmaps (ents.map pageBm) addr → IdentityWritable s.load map addr
  frames : ∀ page ∈ managedPages ents, ∀ addr, page ≤ addr → addr < page + pageSize → IdentityWritable s.load map addr
  kernel : ∀ offset < image.size, offset % pageSize = 0 →
    ∀ vaddr, virtualPage vaddr = virtualPage (image.virtualBase + offset) →
      translate s.load map vaddr = some (pageOf (image.physicalBase + offset))
  stack : ∃ frames : List Nat, frames.length = kStkPages ∧ frames.Nodup ∧ (∀ frame ∈ frames, frame ∈ s.answers) ∧
    ∀ index (bound : index < frames.length), ∀ vaddr, virtualPage vaddr = virtualPage (kStkBase + pageSize * index) →
      translate s.load map vaddr = some frames[index]

end Bwuhos
