import Bwuhos.Kdef
import Bwuhos.Vmm
import Bwuhos.Data.LinkedList

namespace Bwuhos

open Bwuhos.Data

/-! # The kernel heap

`kheap.c`.  The memory of the heap window is read and written in quadwords, so it is
indexed by the virtual address of a quadword.  The answers of `pmm_alloc` come from
outside: call number `k` answers `pmm k`.  Loops over the block list take fuel, and
have no answer when it runs out.
-/

def khStart : Nat := 0xfffffbbb00000000

def khMaxNpages : Nat := 0x40000

def khEntSize : Nat := 16

structure MapCur where
  paddr : Nat
  vaddr : Nat
  flags : Nat
deriving Repr, DecidableEq

/-- The static variables of `kheap.c`, the memory that the block headers lie in, and the
calls of `vmm_map_cur` made so far, in order. -/
structure Kheap where
  mem : Nat → Nat
  khHead : Nat
  khTail : Nat
  khNpages : Nat
  mapped : List MapCur
  pmm : Nat → Nat
  taken : Nat

namespace Kheap

def next (kh : Kheap) (ent : Nat) : Nat := kh.mem ent

def dataSize (kh : Kheap) (ent : Nat) : Nat := kh.mem (ent + 8)

def limit (kh : Kheap) : Nat := u64 (khStart + pageSize * kh.khNpages)

def writeEnt (kh : Kheap) (ent next dataSize : Nat) : Kheap :=
  { kh with mem := Function.update (Function.update kh.mem ent next) (ent + 8) dataSize }

def pmmAlloc (kh : Kheap) : Nat × Kheap := (kh.pmm kh.taken, { kh with taken := kh.taken + 1 })

def vmmMapCur (kh : Kheap) (paddr vaddr flags : Nat) : Kheap :=
  { kh with mapped := kh.mapped ++ [{ paddr, vaddr, flags }] }

end Kheap

def kheapInit (kh : Kheap) : Nat × Kheap :=
  let paddr := kh.pmmAlloc
  if paddr.1 = physAddrNull then (1, paddr.2)
  else
    let mapped := { paddr.2.vmmMapCur paddr.1 khStart vfWrite with khNpages := 1 }
    (0, { mapped with khTail := khStart, khHead := khStart }.writeEnt khStart 0 0)

def isFree (fuel : Nat) (kh : Kheap) (base limit : Nat) : Option Bool :=
  LinkedList.scan kh.next 0 (fun ent => some
    (if u64 (base + limit) > kh.limit then some false
    else if base < u64 (ent + khEntSize + kh.dataSize ent) ∧ u64 (base + limit) > ent then some false
    else none)) true fuel kh.khHead

/-- The address that `find_free` tries behind a block. -/
def candidate (kh : Kheap) (ent : Nat) : Nat :=
  let addr := u64 (ent + u64 (khEntSize + kh.dataSize ent))
  u64 (addr + (khEntSize - addr % khEntSize))

/-- The address of a free place for a header and `n` bytes of data, or null. -/
def findFree (fuel : Nat) (kh : Kheap) (n : Nat) : Option Nat :=
  LinkedList.scan kh.next 0 (fun ent =>
    (isFree fuel kh (candidate kh ent) (u64 (khEntSize + n))).map fun free =>
      if free then some (candidate kh ent) else none) 0 fuel kh.khHead

/-- Fill in the header of a new block and append the block to the list. -/
def appendBlock (kh : Kheap) (new n : Nat) : Kheap :=
  let filled := kh.writeEnt new 0 n
  { filled with mem := Function.update filled.mem filled.khTail new, khTail := new }

/-- The growth loop of `kheap_alloc` over the next `count` pages. -/
def kheapGrow (fuel : Nat) (n : Nat) : Nat → Kheap → Option (Nat × Kheap)
  | 0, kh => some (0, kh)
  | count + 1, kh =>
      let paddr := kh.pmmAlloc
      if paddr.1 = physAddrNull then some (0, paddr.2)
      else
        let mapped := paddr.2.vmmMapCur paddr.1 kh.limit vfWrite
        let grown := { mapped with khNpages := kh.khNpages + 1 }
        match findFree fuel grown n with
        | none => none
        | some 0 => kheapGrow fuel n count grown
        | some new => some (new + khEntSize, appendBlock grown new n)

def kheapAlloc (fuel : Nat) (kh : Kheap) (n : Nat) : Option (Nat × Kheap) :=
  match findFree fuel kh n with
  | none => none
  | some 0 => kheapGrow fuel n (khMaxNpages - kh.khNpages) kh
  | some new => some (new + khEntSize, appendBlock kh new n)

end Bwuhos
