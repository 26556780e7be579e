import Bwuhos.MemLayout
import Bwuhos.Data.BitArray

namespace Bwuhos

open Bwuhos.Data

/-! # Physical memory manager

The page frame allocator of `pmm.c`.  Every call runs from lock to unlock without
interruption, so the functions below are the critical sections.
-/

def pageStkCap : Nat := 256

/-- `struct bitmap`: the frames of one memory region.  `data` is the address of the
bitmap, which lies in the first pages of the region itself. -/
structure Bitmap where
  base : Nat
  data : Nat
  npage : Nat
  firstFree : Nat
deriving Repr, DecidableEq

/-- The static variables of `pmm.c` and the memory that holds the bitmaps.  The head of
`pageStk` is the top of the page stack, so its length is `page_stk_size`. -/
structure Pmm where
  mem : ByteMemory
  pageBms : List Bitmap
  pageStk : List Nat

namespace Bitmap

def frame (bm : Bitmap) (index : Nat) : Nat := u64 (bm.base + pageSize * index)

def taken (mem : ByteMemory) (bm : Bitmap) (index : Nat) : Bool := BitArray.test mem bm.data index

def contains (bm : Bitmap) (addr : Nat) : Bool :=
  bm.base ≤ addr && addr < u64 (bm.base + pageSize * bm.npage)

end Bitmap

/-- The scan of `bm_find_first_free` over the next `count` frames. -/
def bmScan (mem : ByteMemory) (bm : Bitmap) : Nat → Nat → Nat
  | 0, free => free
  | count + 1, free => if bm.taken mem free then bmScan mem bm count (free + 1) else free

def bmFindFirstFree (mem : ByteMemory) (bm : Bitmap) (start : Nat) : Nat :=
  bmScan mem bm (bm.npage - start) start

/-- The inner loop of `bm_feed_stk` over the next `count` frames of one region. -/
def bmFeedPages (bm : Bitmap) : Nat → Nat → ByteMemory → List Nat → ByteMemory × List Nat
  | 0, _, mem, stk => (mem, stk)
  | count + 1, index, mem, stk =>
      let fed := if bm.taken mem index then (mem, stk)
        else (BitArray.set mem bm.data index, bm.frame index :: stk)
      if pageStkCap ≤ fed.2.length then fed
      else bmFeedPages bm count (index + 1) fed.1 fed.2

/-- One iteration of the outer loop of `bm_feed_stk`. -/
def bmFeedRegion (bm : Bitmap) (mem : ByteMemory) (stk : List Nat) : Bitmap × ByteMemory × List Nat :=
  let fed := bmFeedPages bm (bm.npage - bm.firstFree) bm.firstFree mem stk
  ({ bm with firstFree := bmFindFirstFree fed.1 bm (u64 (bm.firstFree + 1)) }, fed)

/-- The outer loop of `bm_feed_stk` over the regions that are left. -/
def bmFeedRegions : List Bitmap → ByteMemory → List Nat → List Bitmap × ByteMemory × List Nat
  | [], mem, stk => ([], mem, stk)
  | bm :: rest, mem, stk =>
      if stk.length < pageStkCap then
        let fed := bmFeedRegion bm mem stk
        let others := bmFeedRegions rest fed.2.1 fed.2.2
        (fed.1 :: others.1, others.2)
      else (bm :: rest, mem, stk)

def bmFeedStk (pmm : Pmm) : Pmm :=
  let fed := bmFeedRegions pmm.pageBms pmm.mem pmm.pageStk
  { mem := fed.2.1, pageBms := fed.1, pageStk := fed.2.2 }

/-- The region that `pmm_init` lays out in a memory entry. -/
def pageBm (ent : MemlEnt) : Bitmap :=
  let npageTotal := ent.size / pageSize
  let npageBm := 1 + u64Sub (u64 (7 * npageTotal) / 8) 1 / pageSize
  { base := u64 (ent.base + pageSize * npageBm)
    data := ent.base
    npage := u64Sub npageTotal npageBm
    firstFree := 0 }

def pmmInit (ents : List MemlEnt) (mem : ByteMemory) : Pmm :=
  bmFeedStk { mem, pageBms := ents.map pageBm, pageStk := [] }

def pmmAvl (pmm : Pmm) (addr : Nat) : Bool :=
  match pmm.pageBms.find? (·.contains (pageOf addr)) with
  | none => false
  | some bm => bm.taken pmm.mem ((pageOf addr - bm.base) / pageSize)

/-- The page is taken off the top of the stack, which is refilled first when empty. -/
def pmmAlloc (pmm : Pmm) : Nat × Pmm :=
  let fed := if pmm.pageStk.isEmpty then bmFeedStk pmm else pmm
  match fed.pageStk with
  | [] => (physAddrNull, fed)
  | paddr :: stk => (paddr, { fed with pageStk := stk })

/-- The first region for which the range test succeeds, with its new hint. -/
def pmmFreeHint (page : Nat) : List Bitmap → List Bitmap
  | [] => []
  | bm :: rest =>
      if bm.contains page then
        let index := (page - bm.base) / pageSize
        { bm with firstFree := if index < bm.firstFree then index else bm.firstFree } :: rest
      else bm :: pmmFreeHint page rest

def pmmFree (pmm : Pmm) (addr : Nat) : Pmm :=
  let page := pageOf addr
  match pmm.pageBms.find? (·.contains page) with
  | none => pmm
  | some bm =>
      { pmm with
        mem := BitArray.clear pmm.mem bm.data ((page - bm.base) / pageSize)
        pageBms := pmmFreeHint page pmm.pageBms }

end Bwuhos
