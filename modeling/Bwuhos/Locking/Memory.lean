import Bwuhos.Locking.Print

namespace Bwuhos.Locking

open Bwuhos.Data Locked

/-! # Memory

`pmm.c`, the mapping of pages, and `kheap.c`, with their mutexes.
-/

section

variable {World : Type}

/-- `if (!page_stk_size) bm_feed_stk()`. -/
def feedEmptyStk : Kernel World Unit :=
  modify fun machine =>
    { machine with pmm := if machine.pmm.pageStk.isEmpty then bmFeedStk machine.pmm else machine.pmm }

def pmmAlloc (env : Env World) : Kernel World Nat := do
  lock .pmm
  feedEmptyStk
  let pageStk ← get fun machine => machine.pmm.pageStk
  match pageStk with
  | [] => do
      kuPrintln env .err "pmm: could not alloc page frame!" []
      unlock .pmm
      return physAddrNull
  | paddr :: stk => do
      modify fun machine => { machine with pmm := { machine.pmm with pageStk := stk } }
      unlock .pmm
      return paddr

def pmmFree (addr : Nat) : Kernel World Unit := do
  lock .pmm
  let page := pageOf addr
  let found ← get fun machine => machine.pmm.pageBms.find? (·.contains page)
  match found with
  | none => unlock .pmm
  | some bm => do
      modify fun machine => { machine with pmm := { machine.pmm with
        mem := BitArray.clear machine.pmm.mem bm.data ((page - bm.base) / pageSize)
        pageBms := pmmFreeHint page machine.pmm.pageBms } }
      unlock .pmm

def storeTable (addr value : Nat) : Kernel World Unit :=
  modify fun machine => { machine with paging := machine.paging.store addr value }

def nextPgDir (env : Env World) (cur ind flags : Nat) : Kernel World Nat := do
  let entry ← get fun machine => machine.paging.load (cur + 8 * ind)
  if entry &&& pfP = 0 then do
    let new ← pmmAlloc env
    modify fun machine => { machine with paging := machine.paging.fms64 new 0 (pageSize / 8) }
    storeTable (cur + 8 * ind) new
    let linked ← get fun machine => machine.paging.load (cur + 8 * ind)
    storeTable (cur + 8 * ind) (linked ||| (pfP ||| flags))
    get fun machine => maskLow 12 (machine.paging.load (cur + 8 * ind))
  else return maskLow 12 entry

def pagingMap (env : Env World) (pml4 paddr vaddr flags : Nat) : Kernel World Unit := do
  let pi := vaddrToPgInd vaddr
  let pdpt ← nextPgDir env pml4 pi.pdpt flags
  let pdt ← nextPgDir env pdpt pi.pdt flags
  let pt ← nextPgDir env pdt pi.pt flags
  storeTable (pt + 8 * pi.pg) (pageOf paddr)
  let mapped ← get fun machine => machine.paging.load (pt + 8 * pi.pg)
  storeTable (pt + 8 * pi.pg) (mapped ||| (pfP ||| flags))

def vmmMap (env : Env World) (map paddr vaddr flags : Nat) : Kernel World Unit :=
  pagingMap env map paddr vaddr (x86Flags flags)

def vmmMapCur (env : Env World) (paddr vaddr flags : Nat) : Kernel World Unit := do
  let map ← get Machine.cr3
  vmmMap env map paddr vaddr flags

def findFree (env : Env World) (n : Nat) : Kernel World Nat :=
  act fun machine =>
    match Bwuhos.findFree env.fuel machine.kheap n with
    | none => .error .outOfFuel
    | some new => .ok (new, machine)

/-- What `kheap_alloc` does with a free place, up to its return. -/
def takePlace (new n : Nat) : Kernel World Nat := do
  modify fun machine => { machine with kheap := appendBlock machine.kheap new n }
  unlock .kheap
  return new + khEntSize

/-- The loop of `kheap_alloc` that maps more pages, and what follows it. -/
def kheapGrow (env : Env World) (n : Nat) : (left : Nat) → Kernel World Nat
  | 0 => do
      kuPrintln env .err "kheap: could not alloc memory!" []
      unlock .kheap
      return 0
  | left + 1 => do
      let paddr ← pmmAlloc env
      if paddr = physAddrNull then do
        kuPrintln env .err "kheap: failed to alloc page for heap expansion!" []
        unlock .kheap
        return 0
      else do
        let vaddr ← get fun machine => machine.kheap.limit
        vmmMapCur env paddr vaddr vfWrite
        modify fun machine => { machine with kheap := { machine.kheap with khNpages := machine.kheap.khNpages + 1 } }
        let new ← findFree env n
        if new ≠ 0 then takePlace new n else kheapGrow env n left

def kheapAlloc (env : Env World) (n : Nat) : Kernel World Nat := do
  lock .kheap
  let new ← findFree env n
  if new ≠ 0 then takePlace new n
  else do
    let left ← get fun machine => khMaxNpages - machine.kheap.khNpages
    kheapGrow env n left

variable {stops : Stop → Prop} {level : Nat}

theorem pmmFree_calls (addr : Nat) (room : 2 < level) : Calls stops level (pmmFree addr : Kernel World Unit) := by
  apply Balanced.lock (show Mutex.rank .pmm < level from room)
  refine Releases.bind (.get _) fun found => ?_
  cases found with
  | none => exact .last
  | some bm => exact .bind (.modify _) fun _ => .last

variable (polls : stops .outOfFuel)

include polls

/-- An exit that prints first and then unlocks. -/
theorem printed_section {Result : Type} {mutex : Mutex} (env : Env World) (type : LogType) (msg : String)
    (args : List PrintArg) (fit : fits .text msg.toList args = true) (result : Result) (room : 1 < mutex.rank) :
    Section stops mutex (do
      kuPrintln env type msg args
      unlock mutex
      return result : Kernel World Result) :=
  .bind (kuPrintln_calls polls env type msg args fit room) fun _ => .unlock (.pure result)

theorem pmmAlloc_calls (env : Env World) (room : 2 < level) : Calls stops level (pmmAlloc env) := by
  apply Balanced.lock (show Mutex.rank .pmm < level from room)
  refine Releases.bind (.modify _) fun _ => .bind (.get _) fun pageStk => ?_
  cases pageStk with
  | nil => exact printed_section polls env _ _ _ (by exact fits_literal rfl) _ (by decide)
  | cons paddr stk => exact .bind (.modify _) fun _ => .unlock (.pure _)

theorem nextPgDir_calls (env : Env World) (cur ind flags : Nat) (room : 2 < level) :
    Calls stops level (nextPgDir env cur ind flags) := by
  refine Balanced.bind (.get _) fun entry => ?_
  split
  · refine .bind (pmmAlloc_calls polls env room) fun new => .bind (.modify _) fun _ => ?_
    exact .bind (.modify _) fun _ => .bind (.get _) fun linked => .bind (.modify _) fun _ => .get _
  · exact .pure _

theorem vmmMapCur_calls (env : Env World) (paddr vaddr flags : Nat) (room : 2 < level) :
    Calls stops level (vmmMapCur env paddr vaddr flags) := by
  refine Balanced.bind (.get _) fun map => ?_
  refine .bind (nextPgDir_calls polls env _ _ _ room) fun pdpt => ?_
  refine .bind (nextPgDir_calls polls env _ _ _ room) fun pdt => ?_
  refine .bind (nextPgDir_calls polls env _ _ _ room) fun pt => ?_
  exact .bind (.modify _) fun _ => .bind (.get _) fun mapped => .modify _

theorem findFree_calls (env : Env World) (n : Nat) : Calls stops level (findFree env n) := by
  apply Balanced.act
  intro machine stop failed
  cases found : Bwuhos.findFree env.fuel machine.kheap n with
  | none =>
      rw [found] at failed
      cases failed
      exact polls
  | some new =>
      rw [found] at failed
      cases failed

omit polls in
theorem takePlace_section (new n : Nat) : Section stops .kheap (takePlace new n : Kernel World Nat) :=
  .bind (.modify _) fun _ => .unlock (.pure _)

/-- Each round of the growth loop either returns, and then unlocks, or leaves the lock to the next. -/
theorem kheapGrow_section (env : Env World) (n left : Nat) : Section stops .kheap (kheapGrow env n left) := by
  induction left with
  | zero => exact printed_section polls env _ _ _ (by exact fits_literal rfl) _ (by decide)
  | succ left ih =>
      refine Releases.bind (pmmAlloc_calls polls env (by decide)) fun paddr => ?_
      split
      · exact printed_section polls env _ _ _ (by exact fits_literal rfl) _ (by decide)
      · refine .bind (.get _) fun vaddr => .bind (vmmMapCur_calls polls env _ _ _ (by decide)) fun _ => ?_
        refine .bind (.modify _) fun _ => .bind (findFree_calls polls env n) fun new => ?_
        split
        · exact takePlace_section new n
        · exact ih

theorem kheapAlloc_calls (env : Env World) (n : Nat) (room : 3 < level) : Calls stops level (kheapAlloc env n) := by
  apply Balanced.lock (show Mutex.rank .kheap < level from room)
  refine Releases.bind (findFree_calls polls env n) fun new => ?_
  split
  · exact takePlace_section new n
  · exact .bind (.get _) fun left => kheapGrow_section polls env n left

end

end Bwuhos.Locking
