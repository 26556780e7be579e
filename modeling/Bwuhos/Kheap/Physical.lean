import Bwuhos.Kheap
import Bwuhos.Vmm.Init

namespace Bwuhos

open Bwuhos.Data

/-! # The kernel heap on physical memory

`kheap.c` again, now over the bytes of physical memory, with `pmm.c` and `vmm.c` themselves.
The headers of the blocks are read and written through the page map in use.
-/

/-- Physical memory with its allocator, the map that `cr3` holds, and the static variables of `kheap.c`. -/
structure KernelMem where
  phys : PhysMem
  cr3 : Nat
  khHead : Nat
  khTail : Nat
  khNpages : Nat

namespace KernelMem

/-- The physical address that a virtual one stands for. -/
def place (k : KernelMem) (vaddr : Nat) : Option Nat :=
  (translate k.phys.load k.cr3 vaddr).map (· + vaddr % pageSize)

/-- The physical address that a write goes to.  The kernel heeds the read/write bits. -/
def placeToWrite (k : KernelMem) (vaddr : Nat) : Option Nat :=
  (walkEntries k.phys.load k.cr3 vaddr).bind fun entries =>
    if entries.all (·.testBit 1) then k.place vaddr else none

def readByte (k : KernelMem) (vaddr : Nat) : Option (BitVec 8) := (k.place vaddr).map k.phys.pmm.mem

def setMem (k : KernelMem) (mem : ByteMemory) : KernelMem :=
  { k with phys := { k.phys with pmm := { k.phys.pmm with mem } } }

def writeByte (k : KernelMem) (vaddr : Nat) (byte : BitVec 8) : Option KernelMem :=
  (k.placeToWrite vaddr).map fun addr => k.setMem (Function.update k.phys.pmm.mem addr byte)

/-- A quadword at a virtual address.  A page fault leaves the state in which it happened. -/
def load (k : KernelMem) (vaddr : Nat) : Except KernelMem Nat :=
  match k.place vaddr with
  | none => .error k
  | some addr => .ok (k.phys.load addr)

def store (k : KernelMem) (vaddr value : Nat) : Except KernelMem KernelMem :=
  match k.placeToWrite vaddr with
  | none => .error k
  | some addr => .ok { k with phys := k.phys.store addr value }

def limit (k : KernelMem) : Nat := u64 (khStart + pageSize * k.khNpages)

def vmmMapCur (k : KernelMem) (paddr vaddr flags : Nat) : KernelMem :=
  { k with phys := k.phys.vmmMap k.cr3 paddr vaddr flags }

def isFree (k : KernelMem) (base limit : Nat) : Nat → Nat → Except KernelMem Bool
  | 0, _ => .error k
  | fuel + 1, ent =>
      if ent = 0 then .ok true
      else if u64 (base + limit) > k.limit then .ok false
      else do
        let dataSize ← k.load (ent + 8)
        if base < u64 (ent + khEntSize + dataSize) ∧ u64 (base + limit) > ent then .ok false
        else do
          let next ← k.load ent
          k.isFree base limit fuel next

/-- The address that `find_free` tries behind a block with so many bytes of data. -/
def candidateBehind (ent dataSize : Nat) : Nat :=
  let addr := u64 (ent + u64 (khEntSize + dataSize))
  u64 (addr + (khEntSize - addr % khEntSize))

/-- The search from a block on, with as much fuel for every test of a place as `rounds`. -/
def findFreeFrom (k : KernelMem) (n rounds : Nat) : Nat → Nat → Except KernelMem Nat
  | 0, _ => .error k
  | fuel + 1, ent =>
      if ent = 0 then .ok 0
      else do
        let dataSize ← k.load (ent + 8)
        let addr := candidateBehind ent dataSize
        let free ← k.isFree addr (u64 (khEntSize + n)) rounds k.khHead
        if free then .ok addr
        else do
          let next ← k.load ent
          k.findFreeFrom n rounds fuel next

def findFree (fuel : Nat) (k : KernelMem) (n : Nat) : Except KernelMem Nat := k.findFreeFrom n fuel fuel k.khHead

def writeEnt (k : KernelMem) (ent next dataSize : Nat) : Except KernelMem KernelMem := do
  let linked ← k.store ent next
  linked.store (ent + 8) dataSize

/-- Fill in the header of a new block and append the block to the list. -/
def appendBlock (k : KernelMem) (new n : Nat) : Except KernelMem KernelMem := do
  let filled ← k.writeEnt new 0 n
  let linked ← filled.store filled.khTail new
  return { linked with khTail := new }

def kheapInit (k : KernelMem) : Except KernelMem (Nat × KernelMem) :=
  let paddr := k.phys.alloc
  if paddr.1 = physAddrNull then .ok (1, { k with phys := paddr.2 })
  else do
    let mapped := { { k with phys := paddr.2 }.vmmMapCur paddr.1 khStart vfWrite with khNpages := 1 }
    let filled ← { mapped with khTail := khStart, khHead := khStart }.writeEnt khStart 0 0
    return (0, filled)

/-- The growth loop of `kheap_alloc` over the next `count` pages. -/
def kheapGrow (fuel n : Nat) : Nat → KernelMem → Except KernelMem (Nat × KernelMem)
  | 0, k => .ok (0, k)
  | count + 1, k =>
      let paddr := k.phys.alloc
      if paddr.1 = physAddrNull then .ok (0, { k with phys := paddr.2 })
      else do
        let mapped := { k with phys := paddr.2 }.vmmMapCur paddr.1 k.limit vfWrite
        let grown := { mapped with khNpages := k.khNpages + 1 }
        let new ← grown.findFree fuel n
        if new = 0 then kheapGrow fuel n count grown
        else do
          let appended ← grown.appendBlock new n
          return (new + khEntSize, appended)

def kheapAlloc (fuel n : Nat) (k : KernelMem) : Except KernelMem (Nat × KernelMem) := do
  let new ← k.findFree fuel n
  if new = 0 then kheapGrow fuel n (khMaxNpages - k.khNpages) k
  else do
    let appended ← k.appendBlock new n
    return (new + khEntSize, appended)

end KernelMem

end Bwuhos
