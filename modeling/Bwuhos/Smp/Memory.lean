import Bwuhos.Smp.Pmm

namespace Bwuhos.Smp

open Bwuhos.Data Program
open Bwuhos.Locking (Mutex Machine Env)

/-! # Memory, step by step

The mapping of pages and `kheap.c`, as programs of which every access to a page table, to a
header of a block or to a static variable is one step.
-/

section

variable {World : Type}

def storeTable (addr value : Nat) : Kernel World Unit :=
  modify fun machine => { machine with paging := machine.paging.store addr value }

def loadTable (addr : Nat) : Kernel World Nat := get fun machine => machine.paging.load addr

/-- `au_fms_64` is a single instruction. -/
def clearTable (addr : Nat) : Kernel World Unit :=
  modify fun machine => { machine with paging := machine.paging.fms64 addr 0 (pageSize / 8) }

def nextPgDir (env : Env World) (cur ind flags : Nat) : Kernel World Nat := do
  let entry ← loadTable (cur + 8 * ind)
  if entry &&& pfP = 0 then do
    let new ← pmmAlloc env
    clearTable new
    storeTable (cur + 8 * ind) new
    let linked ← loadTable (cur + 8 * ind)
    storeTable (cur + 8 * ind) (linked ||| (pfP ||| flags))
    let entry ← loadTable (cur + 8 * ind)
    return maskLow 12 entry
  else return maskLow 12 entry

def pagingMap (env : Env World) (pml4 paddr vaddr flags : Nat) : Kernel World Unit := do
  let pi := vaddrToPgInd vaddr
  let pdpt ← nextPgDir env pml4 pi.pdpt flags
  let pdt ← nextPgDir env pdpt pi.pdt flags
  let pt ← nextPgDir env pdt pi.pt flags
  storeTable (pt + 8 * pi.pg) (pageOf paddr)
  let mapped ← loadTable (pt + 8 * pi.pg)
  storeTable (pt + 8 * pi.pg) (mapped ||| (pfP ||| flags))

def vmmMap (env : Env World) (map paddr vaddr flags : Nat) : Kernel World Unit :=
  pagingMap env map paddr vaddr (x86Flags flags)

def vmmMapCur (env : Env World) (paddr vaddr flags : Nat) : Kernel World Unit := do
  let map ← get Machine.cr3
  vmmMap env map paddr vaddr flags

end

abbrev KheapProgram (Result : Type) : Type 1 := Program Mutex Stop Kheap Result

def onKheap {World Result : Type} (call : KheapProgram Result) : Kernel World Result :=
  zoom (fun machine => machine.kheap) (fun kheap machine => { machine with kheap }) call

def isFreeRound (base limit ent : Nat) : KheapProgram (Nat ⊕ Bool) :=
  if ent = 0 then return .inr true
  else do
    let end_ ← get Kheap.limit
    if u64 (base + limit) > end_ then return .inr false
    else do
      let dataSize ← get (Kheap.dataSize · ent)
      if base < u64 (ent + khEntSize + dataSize) ∧ u64 (base + limit) > ent then return .inr false
      else do
        let next ← get (Kheap.next · ent)
        return .inl next

def isFree (base limit : Nat) : KheapProgram Bool := do
  let khHead ← get Kheap.khHead
  repeating (isFreeRound base limit) khHead

def findFreeRound (n ent : Nat) : KheapProgram (Nat ⊕ Nat) :=
  if ent = 0 then return .inr 0
  else do
    let addr ← get (candidate · ent)
    let free ← isFree addr (u64 (khEntSize + n))
    if free then return .inr addr
    else do
      let next ← get (Kheap.next · ent)
      return .inl next

def findFree (n : Nat) : KheapProgram Nat := do
  let khHead ← get Kheap.khHead
  repeating (findFreeRound n) khHead

/-- What `kheap_alloc` does with a free place, up to the unlock. -/
def fillPlace (new n : Nat) : KheapProgram Unit := do
  modify fun kh => kh.writeEnt new 0 n
  let khTail ← get Kheap.khTail
  modify fun kh => { kh with mem := Function.update kh.mem khTail new }
  modify fun kh => { kh with khTail := new }

section

variable {World : Type}

def takePlace (new n : Nat) : Kernel World Nat := do
  onKheap (fillPlace new n)
  unlock .kheap
  return new + khEntSize

/-- The loop of `kheap_alloc` that maps more pages, and what follows it. -/
def kheapGrow (env : Env World) (n : Nat) : (left : Nat) → Kernel World Nat
  | 0 => do
      kuPrintln env .err "kheap: could not alloc memory!" []
      unlock .kheap
      return 0
  | left + 1 => do
      let paddr ← pmmAlloc env
      if paddr = physAddrNull then do
        kuPrintln env .err "kheap: failed to alloc page for heap expansion!" []
        unlock .kheap
        return 0
      else do
        let vaddr ← onKheap (get Kheap.limit)
        vmmMapCur env paddr vaddr vfWrite
        onKheap (modify fun kh => { kh with khNpages := kh.khNpages + 1 })
        let new ← onKheap (findFree n)
        if new ≠ 0 then takePlace new n else kheapGrow env n left

def kheapAlloc (env : Env World) (n : Nat) : Kernel World Nat := do
  lock .kheap
  let new ← onKheap (findFree n)
  if new ≠ 0 then takePlace new n
  else do
    let left ← onKheap (get fun kh => khMaxNpages - kh.khNpages)
    kheapGrow env n left

end

section

variable {fuel : Nat} {held : Mutex → Bool} {kh : Kheap}

theorem isFree_run (base limit : Nat) :
    (isFree base limit).run .outOfFuel fuel held kh = walked .outOfFuel held kh (Bwuhos.isFree fuel kh base limit) := by
  refine repeating_scan rfl (fun ent more => ?_) kh.khHead
  simp only [isFreeRound, if_neg more, run_bind, run_get]
  change ((if _ then _ else _ : KheapProgram _).run .outOfFuel fuel) held kh = _
  split
  · rfl
  · change ((if _ then _ else _ : KheapProgram _).run .outOfFuel fuel) held kh = _
    split <;> rfl

theorem findFree_run (n : Nat) :
    (findFree n).run .outOfFuel fuel held kh = walked .outOfFuel held kh (Bwuhos.findFree fuel kh n) := by
  refine repeating_scan rfl (fun ent more => ?_) kh.khHead
  simp only [findFreeRound, if_neg more, run_bind, run_get]
  change Locked.andThen ((isFree _ _).run .outOfFuel fuel) _ held kh = _
  rw [Locked.andThen, isFree_run]
  cases Bwuhos.isFree fuel kh (candidate kh ent) (u64 (khEntSize + n)) with
  | none => rfl
  | some free => cases free <;> rfl

end

section

variable {World : Type}

theorem kheap_lens : Lens (fun machine : Machine World => machine.kheap) fun kheap machine =>
    { machine with kheap } where
  view_put _ _ := rfl
  put_view _ := rfl
  put_put _ _ _ := rfl

@[simp] theorem nextPgDir_run (env : Env World) (cur ind flags : Nat) :
    (nextPgDir env cur ind flags).run .outOfFuel env.fuel = Locking.nextPgDir env cur ind flags := by
  simp only [nextPgDir, Locking.nextPgDir, loadTable, storeTable, clearTable, Locking.storeTable, run_bind, run_ite,
    run_get, run_modify, run_pure, pmmAlloc_run]
  rfl

@[simp] theorem vmmMapCur_run (env : Env World) (paddr vaddr flags : Nat) :
    (vmmMapCur env paddr vaddr flags).run .outOfFuel env.fuel = Locking.vmmMapCur env paddr vaddr flags := by
  simp only [vmmMapCur, Locking.vmmMapCur, vmmMap, Locking.vmmMap, pagingMap, Locking.pagingMap, loadTable, storeTable,
    Locking.storeTable, run_bind, run_get, run_modify, nextPgDir_run]

@[simp] theorem onKheap_findFree_run (env : Env World) (n : Nat) :
    (onKheap (findFree n) : Kernel World Nat).run .outOfFuel env.fuel = Locking.findFree env n := by
  refine (run_zoom kheap_lens _).trans (funext fun held => funext fun machine => ?_)
  simp only [Locked.zoom, findFree_run, Locking.findFree, Locked.act]
  cases Bwuhos.findFree env.fuel machine.kheap n <;> rfl

@[simp] theorem takePlace_run (env : Env World) (new n : Nat) :
    (takePlace new n : Kernel World Nat).run .outOfFuel env.fuel = Locking.takePlace new n := rfl

theorem kheapGrow_run (env : Env World) (n left : Nat) :
    (kheapGrow env n left).run .outOfFuel env.fuel = Locking.kheapGrow env n left := by
  induction left with
  | zero => simp only [kheapGrow, Locking.kheapGrow, run_bind, run_unlock, run_pure, kuPrintln_run]
  | succ left ih =>
      simp only [kheapGrow, Locking.kheapGrow, run_bind, run_ite, run_unlock, run_pure, kuPrintln_run, pmmAlloc_run,
        vmmMapCur_run, onKheap_findFree_run, takePlace_run, ih]
      rfl

theorem kheapAlloc_run (env : Env World) (n : Nat) :
    (kheapAlloc env n).run .outOfFuel env.fuel = Locking.kheapAlloc env n := by
  simp only [kheapAlloc, Locking.kheapAlloc, run_bind, run_lock, run_ite, onKheap_findFree_run, takePlace_run,
    kheapGrow_run]
  rfl

end

section

variable {World : Type} {level : Nat}

theorem printed_nested (env : Env World) (type : Locking.LogType) (msg : String) (args : List Locking.PrintArg)
    (room : 1 < level) : NestedCall level anything (kuPrintln env type msg args) :=
  Nested.mono (kuPrintln_nested env type msg args room) fun _ _ _ => trivial

theorem onPmm_nested {Result : Type} {program : PmmProgram Result} (free : LockFree program) :
    NestedCall level anything (onPmm program : Kernel World Result) :=
  .zoom anything free.nested fun _ _ _ => trivial

theorem onKheap_nested {Result : Type} {program : KheapProgram Result} (free : LockFree program) :
    NestedCall level anything (onKheap program : Kernel World Result) :=
  .zoom anything free.nested fun _ _ _ => trivial

/-- An exit that prints first and then unlocks. -/
theorem printed_releasing {Result : Type} {mutex : Mutex} (env : Env World) (type : Locking.LogType) (msg : String)
    (args : List Locking.PrintArg) (result : Result) (held : 1 < mutex.rank) (room : mutex.rank ≤ level) :
    Releasing Mutex.rank level anything mutex (do
      kuPrintln env type msg args
      unlock mutex
      return result : Kernel World Result) :=
  .bind (printed_nested env type msg args held) room fun _ => .unlock (.pure result)

/-- The heap is left as it is. -/
def sparesKheap (before after : Machine World) : Prop := after.kheap = before.kheap

theorem sparesKheap_refl (machine : Machine World) : sparesKheap machine machine := rfl

theorem onPmm_sparing {Result : Type} {program : PmmProgram Result} (free : LockFree program) :
    NestedCall level sparesKheap (onPmm program : Kernel World Result) :=
  .zoom anything free.nested fun _ _ _ => rfl

theorem printed_sparing (env : Env World) (type : Locking.LogType) (msg : String) (args : List Locking.PrintArg)
    (room : 1 < level) : NestedCall level sparesKheap (kuPrintln env type msg args) := by
  refine Nested.mono (kuPrintln_nested env type msg args room) fun before after only => ?_
  obtain ⟨world, rfl⟩ := only
  rfl

theorem pmmAlloc_sparing (env : Env World) (room : 2 < level) : NestedCall level sparesKheap (pmmAlloc env) := by
  apply Nested.lock (show Mutex.rank .pmm < level from room)
  refine .bind (onPmm_sparing feedEmptyStk_lockFree) (Nat.le_of_lt room) fun _ => ?_
  refine .bind (onPmm_sparing trivial) (Nat.le_of_lt room) fun size => ?_
  split
  · exact .bind (printed_sparing env _ _ _ (by decide)) (Nat.le_of_lt room) fun _ => .unlock (.pure _)
  · exact .bind (onPmm_sparing trivial) (Nat.le_of_lt room) fun paddr => .unlock (.pure _)

theorem pmmAlloc_nested (env : Env World) (room : 2 < level) : NestedCall level anything (pmmAlloc env) :=
  (pmmAlloc_sparing env room).mono fun _ _ _ => trivial

theorem pmmFree_nested (addr : Nat) (room : 2 < level) :
    NestedCall level anything (pmmFree addr : Kernel World Unit) := by
  apply Nested.lock (show Mutex.rank .pmm < level from room)
  refine .bind (onPmm_nested trivial) (Nat.le_of_lt room) fun pageBmCnt => ?_
  refine .bind (onPmm_nested (findRegion_lockFree _ _ _)) (Nat.le_of_lt room) fun found => ?_
  cases found with
  | none => exact .last
  | some i => exact .bind (onPmm_nested (freePage_lockFree _ _)) (Nat.le_of_lt room) fun _ => .last

theorem pmmAvl_nested (addr : Nat) (room : 2 < level) :
    NestedCall level anything (pmmAvl addr : Kernel World Bool) := by
  apply Nested.lock (show Mutex.rank .pmm < level from room)
  refine .bind (onPmm_nested trivial) (Nat.le_of_lt room) fun pageBmCnt => ?_
  refine .bind (onPmm_nested (findRegion_lockFree _ _ _)) (Nat.le_of_lt room) fun found => ?_
  cases found with
  | none => exact .unlock (.pure false)
  | some i =>
      exact .bind (onPmm_nested trivial) (Nat.le_of_lt room) fun bm => .unlock (onPmm_nested trivial)

theorem nextPgDir_sparing (env : Env World) (cur ind flags : Nat) (room : 2 < level) :
    NestedCall level sparesKheap (nextPgDir env cur ind flags) := by
  refine .bind (.get sparesKheap_refl _) fun entry => ?_
  split
  · refine .bind (pmmAlloc_sparing env room) fun new => .bind (.modify fun _ => rfl) fun _ => ?_
    refine .bind (.modify fun _ => rfl) fun _ => .bind (.get sparesKheap_refl _) fun linked => ?_
    exact .bind (.modify fun _ => rfl) fun _ => .bind (.get sparesKheap_refl _) fun entry => .pure _
  · exact .pure _

theorem vmmMapCur_sparing (env : Env World) (paddr vaddr flags : Nat) (room : 2 < level) :
    NestedCall level sparesKheap (vmmMapCur env paddr vaddr flags) := by
  refine .bind (.get sparesKheap_refl _) fun map => ?_
  refine .bind (nextPgDir_sparing env _ _ _ room) fun pdpt => ?_
  refine .bind (nextPgDir_sparing env _ _ _ room) fun pdt => ?_
  refine .bind (nextPgDir_sparing env _ _ _ room) fun pt => ?_
  refine .bind (.modify fun _ => rfl) fun _ => .bind (.get sparesKheap_refl _) fun mapped => ?_
  exact .modify fun _ => rfl

theorem vmmMapCur_nested (env : Env World) (paddr vaddr flags : Nat) (room : 2 < level) :
    NestedCall level anything (vmmMapCur env paddr vaddr flags) :=
  (vmmMapCur_sparing env paddr vaddr flags room).mono fun _ _ _ => trivial

theorem isFree_lockFree (base limit : Nat) : LockFree (isFree base limit) := by
  refine ⟨trivial, fun khHead ent => ?_⟩
  dsimp only [isFreeRound]
  split
  · trivial
  · refine ⟨trivial, fun end_ => ?_⟩
    dsimp only
    split
    · trivial
    · refine ⟨trivial, fun dataSize => ?_⟩
      dsimp only
      split
      · trivial
      · exact ⟨trivial, fun next => trivial⟩

theorem findFree_lockFree (n : Nat) : LockFree (findFree n) := by
  refine ⟨trivial, fun khHead ent => ?_⟩
  dsimp only [findFreeRound]
  split
  · trivial
  · refine ⟨trivial, fun addr => ⟨isFree_lockFree _ _, fun free => ?_⟩⟩
    cases free with
    | true => trivial
    | false => exact ⟨trivial, fun next => trivial⟩

theorem fillPlace_lockFree (new n : Nat) : LockFree (fillPlace new n) :=
  ⟨trivial, fun _ => ⟨trivial, fun _ => ⟨trivial, fun _ => trivial⟩⟩⟩

theorem takePlace_releasing (new n : Nat) (room : 3 ≤ level) :
    Releasing Mutex.rank level anything .kheap (takePlace new n : Kernel World Nat) :=
  .bind (onKheap_nested (fillPlace_lockFree new n)) room fun _ => .unlock (.pure _)

/-- Each round of the growth loop either returns, and then unlocks, or leaves the lock to the next. -/
theorem kheapGrow_releasing (env : Env World) (n left : Nat) (room : 3 ≤ level) :
    Releasing Mutex.rank level anything .kheap (kheapGrow env n left) := by
  induction left with
  | zero => exact printed_releasing env _ _ _ _ (by decide) room
  | succ left ih =>
      refine Releasing.bind (pmmAlloc_nested env (by decide)) room fun paddr => ?_
      split
      · exact printed_releasing env _ _ _ _ (by decide) room
      · refine .bind (onKheap_nested trivial) room fun vaddr => ?_
        refine .bind (vmmMapCur_nested env _ _ _ (by decide)) room fun _ => ?_
        refine .bind (onKheap_nested trivial) room fun _ => ?_
        refine .bind (onKheap_nested (findFree_lockFree n)) room fun new => ?_
        split
        · exact takePlace_releasing new n room
        · exact ih

theorem kheapAlloc_nested (env : Env World) (n : Nat) (room : 3 < level) :
    NestedCall level anything (kheapAlloc env n) := by
  apply Nested.lock (show Mutex.rank .kheap < level from room)
  refine .bind (onKheap_nested (findFree_lockFree n)) (Nat.le_of_lt room) fun new => ?_
  split
  · exact takePlace_releasing new n (Nat.le_of_lt room)
  · exact .bind (onKheap_nested trivial) (Nat.le_of_lt room) fun left =>
      kheapGrow_releasing env n left (Nat.le_of_lt room)

end

end Bwuhos.Smp
