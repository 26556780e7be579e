import Bwuhos.AtaPio.Select
import Bwuhos.Data.LockFree
import Bwuhos.Locking.Memory
import Bwuhos.Pmm.Runs
import Bwuhos.Smp.Print

namespace Bwuhos.Smp

open Bwuhos.Data Program
open Bwuhos.Locking (Mutex Machine Env)

/-! # The page allocator, step by step

`pmm.c` as programs of which every access to a static variable or to a byte of a bitmap is
one step.
-/

abbrev PmmProgram (Result : Type) : Type 1 := Program Mutex Stop Pmm Result

def onPmm {World Result : Type} (call : PmmProgram Result) : Kernel World Result :=
  zoom (fun machine => machine.pmm) (fun pmm machine => { machine with pmm }) call

/-- `page_bms[i]`. -/
def readBm (i : Nat) : PmmProgram Bitmap :=
  act fun pmm =>
    match pmm.pageBms[i]? with
    | none => .error .outOfBounds
    | some bm => .ok (bm, pmm)

def writeFirstFree (i : Nat) (bm : Bitmap) (firstFree : Nat) : PmmProgram Unit :=
  modify fun pmm => { pmm with pageBms := pmm.pageBms.set i { bm with firstFree } }

def testBit (bm : Bitmap) (index : Nat) : PmmProgram Bool := get fun pmm => bm.taken pmm.mem index

def setBit (bm : Bitmap) (index : Nat) : PmmProgram Unit :=
  modify fun pmm => { pmm with mem := BitArray.set pmm.mem bm.data index }

def clearBit (bm : Bitmap) (index : Nat) : PmmProgram Unit :=
  modify fun pmm => { pmm with mem := BitArray.clear pmm.mem bm.data index }

def pageStkSize : PmmProgram Nat := get fun pmm => pmm.pageStk.length

def push (page : Nat) : PmmProgram Unit := modify fun pmm => { pmm with pageStk := page :: pmm.pageStk }

/-- `page_stk[--page_stk_size]`. -/
def pop : PmmProgram Nat :=
  act fun pmm =>
    match pmm.pageStk with
    | [] => .error .outOfBounds
    | page :: stk => .ok (page, { pmm with pageStk := stk })

/-- The loop of `bm_find_first_free`, with `left` rounds left. -/
def bmScan (bm : Bitmap) : (left free : Nat) → PmmProgram Nat
  | 0, free => return free
  | left + 1, free => do
      let taken ← testBit bm free
      if taken then bmScan bm left (free + 1) else return free

def bmFindFirstFree (bm : Bitmap) (start : Nat) : PmmProgram Nat := bmScan bm (bm.npage - start) start

def feedPage (bm : Bitmap) (index : Nat) : PmmProgram Unit := do
  let taken ← testBit bm index
  if taken = false then do
    setBit bm index
    push (bm.frame index)

/-- The inner loop of `bm_feed_stk`, with `left` rounds left. -/
def bmFeedPages (bm : Bitmap) : (left index : Nat) → PmmProgram Unit
  | 0, _ => return ()
  | left + 1, index => do
      feedPage bm index
      let size ← pageStkSize
      if pageStkCap ≤ size then return () else bmFeedPages bm left (index + 1)

/-- A round of the outer loop of `bm_feed_stk`. -/
def bmFeedRegion (i : Nat) : PmmProgram Unit := do
  let bm ← readBm i
  bmFeedPages bm (bm.npage - bm.firstFree) bm.firstFree
  let free ← bmFindFirstFree bm (u64 (bm.firstFree + 1))
  writeFirstFree i bm free

def bmFeedRegions : (left i : Nat) → PmmProgram Unit
  | 0, _ => return ()
  | left + 1, i => do
      let size ← pageStkSize
      if size < pageStkCap then do
        bmFeedRegion i
        bmFeedRegions left (i + 1)
      else return ()

def bmFeedStk : PmmProgram Unit := do
  let pageBmCnt ← get fun pmm => pmm.pageBms.length
  bmFeedRegions pageBmCnt 0

/-- `if (!page_stk_size) bm_feed_stk()`. -/
def feedEmptyStk : PmmProgram Unit := do
  let size ← pageStkSize
  if size = 0 then bmFeedStk

/-- The loop that looks for the region of a page. -/
def findRegion (page : Nat) : (left i : Nat) → PmmProgram (Option Nat)
  | 0, _ => return none
  | left + 1, i => do
      let bm ← readBm i
      if bm.contains page then return some i else findRegion page left (i + 1)

section

variable {World : Type}

def pmmAlloc (env : Env World) : Kernel World Nat := do
  lock .pmm
  onPmm feedEmptyStk
  let size ← onPmm pageStkSize
  if size = 0 then do
    kuPrintln env .err "pmm: could not alloc page frame!" []
    unlock .pmm
    return physAddrNull
  else do
    let paddr ← onPmm pop
    unlock .pmm
    return paddr

/-- What `pmm_free` does to the region that it has found. -/
def freePage (page i : Nat) : PmmProgram Unit := do
  let bm ← readBm i
  let index := (page - bm.base) / pageSize
  clearBit bm index
  let bm ← readBm i
  writeFirstFree i bm (if index < bm.firstFree then index else bm.firstFree)

def pmmFree (addr : Nat) : Kernel World Unit := do
  lock .pmm
  let page := pageOf addr
  let pageBmCnt ← onPmm (get fun pmm => pmm.pageBms.length)
  let found ← onPmm (findRegion page pageBmCnt 0)
  match found with
  | none => unlock .pmm
  | some i => do
      onPmm (freePage page i)
      unlock .pmm

/-- The bit is read after the mutex is given back. -/
def pmmAvl (addr : Nat) : Kernel World Bool := do
  lock .pmm
  let page := pageOf addr
  let pageBmCnt ← onPmm (get fun pmm => pmm.pageBms.length)
  let found ← onPmm (findRegion page pageBmCnt 0)
  match found with
  | none => do
      unlock .pmm
      return false
  | some i => do
      let bm ← onPmm (readBm i)
      unlock .pmm
      onPmm (testBit bm ((page - bm.base) / pageSize))

end

section

variable {fuel : Nat} {pmm : Pmm} {bm : Bitmap} {i : Nat}

abbrev ComputesPmm {Result : Type} (fuel : Nat) (program : PmmProgram Result) (pmm : Pmm) (result : Result)
    (final : Pmm) : Prop :=
  Computes .outOfFuel fuel program pmm result final

theorem readBm_computes (here : pmm.pageBms[i]? = some bm) : ComputesPmm fuel (readBm i) pmm bm pmm :=
  .act (by rw [here])

theorem bmScan_computes (left free : Nat) :
    ComputesPmm fuel (bmScan bm left free) pmm (Bwuhos.bmScan pmm.mem bm left free) pmm := by
  induction left generalizing free with
  | zero => exact .pure _ _
  | succ left ih =>
      refine .bind (.get _ pmm) ?_
      rw [Bwuhos.bmScan]
      split
      · exact ih (free + 1)
      · exact .pure _ _

theorem feedPage_computes (index : Nat) : ComputesPmm fuel (feedPage bm index) pmm ()
    (if bm.taken pmm.mem index then pmm
      else { pmm with mem := BitArray.set pmm.mem bm.data index, pageStk := bm.frame index :: pmm.pageStk }) := by
  refine .bind (.get _ pmm) ?_
  cases bm.taken pmm.mem index with
  | true => exact .pure _ _
  | false => exact .bind (.modify _ _) (.modify _ _)

theorem bmFeedPages_computes (left index : Nat) :
    ComputesPmm fuel (bmFeedPages bm left index) pmm ()
      { pmm with
        mem := (Bwuhos.bmFeedPages bm left index pmm.mem pmm.pageStk).1
        pageStk := (Bwuhos.bmFeedPages bm left index pmm.mem pmm.pageStk).2 } := by
  induction left generalizing index pmm with
  | zero => exact .pure _ _
  | succ left ih =>
      refine .bind (feedPage_computes index) (.bind (.get _ _) ?_)
      rw [Bwuhos.bmFeedPages]
      cases bm.taken pmm.mem index with
      | true =>
          simp only [if_true]
          split
          · exact .pure _ _
          · exact ih (index + 1)
      | false =>
          simp only [Bool.false_eq_true, if_false]
          split
          · exact .pure _ _
          · exact ih (index + 1)

theorem bmFeedRegion_computes (here : pmm.pageBms[i]? = some bm) :
    ComputesPmm fuel (bmFeedRegion i) pmm ()
      { mem := (Bwuhos.bmFeedRegion bm pmm.mem pmm.pageStk).2.1
        pageBms := pmm.pageBms.set i (Bwuhos.bmFeedRegion bm pmm.mem pmm.pageStk).1
        pageStk := (Bwuhos.bmFeedRegion bm pmm.mem pmm.pageStk).2.2 } :=
  .bind (readBm_computes here) <| .bind (bmFeedPages_computes _ _) <| .bind (bmScan_computes _ _) (.modify _ _)

theorem bmFeedRegions_computes (fed rest : List Bitmap) (split_ : pmm.pageBms = fed ++ rest) :
    ComputesPmm fuel (bmFeedRegions rest.length fed.length) pmm ()
      { mem := (Bwuhos.bmFeedRegions rest pmm.mem pmm.pageStk).2.1
        pageBms := fed ++ (Bwuhos.bmFeedRegions rest pmm.mem pmm.pageStk).1
        pageStk := (Bwuhos.bmFeedRegions rest pmm.mem pmm.pageStk).2.2 } := by
  induction rest generalizing fed pmm with
  | nil =>
      simp only [Bwuhos.bmFeedRegions, ← split_]
      exact .pure () pmm
  | cons bm rest ih =>
      have here : pmm.pageBms[fed.length]? = some bm := by simp [split_]
      refine .bind (.get _ pmm) ?_
      rw [Bwuhos.bmFeedRegions]
      by_cases room : pmm.pageStk.length < pageStkCap
      · have computed : ComputesPmm fuel (bmFeedRegion fed.length) pmm () _ := bmFeedRegion_computes here
        simp only [if_pos room]
        generalize Bwuhos.bmFeedRegion bm pmm.mem pmm.pageStk = region at computed ⊢
        have again : ComputesPmm fuel (bmFeedRegions rest.length (fed ++ [region.1]).length)
            { mem := region.2.1, pageBms := pmm.pageBms.set fed.length region.1, pageStk := region.2.2 } () _ :=
          ih (fed ++ [region.1]) (by simp [split_])
        rw [List.length_append, List.append_assoc] at again
        exact .bind computed again
      · simp only [if_neg room, ← split_]
        exact .pure () pmm

theorem bmFeedStk_computes (pmm : Pmm) : ComputesPmm fuel bmFeedStk pmm () (Bwuhos.bmFeedStk pmm) := by
  refine .bind (.get _ pmm) ?_
  exact bmFeedRegions_computes [] pmm.pageBms rfl

theorem feedEmptyStk_computes (pmm : Pmm) :
    ComputesPmm fuel feedEmptyStk pmm () (if pmm.pageStk.isEmpty then Bwuhos.bmFeedStk pmm else pmm) := by
  refine .bind (.get _ pmm) ?_
  cases stacked : pmm.pageStk with
  | nil => exact bmFeedStk_computes pmm
  | cons page stk => exact .pure () pmm

/-- The search finds the first region that contains the page. -/
theorem findRegion_computes (page : Nat) (passed rest : List Bitmap) (split_ : pmm.pageBms = passed ++ rest) :
    ComputesPmm fuel (findRegion page rest.length passed.length) pmm
      ((rest.findIdx? (·.contains page)).map (passed.length + ·)) pmm := by
  induction rest generalizing passed with
  | nil => exact .pure none pmm
  | cons bm rest ih =>
      have here : pmm.pageBms[passed.length]? = some bm := by simp [split_]
      refine .bind (readBm_computes here) ?_
      rw [List.findIdx?_cons]
      cases bm.contains page with
      | true => exact .pure _ _
      | false =>
          have again : ComputesPmm fuel (findRegion page rest.length (passed ++ [bm]).length) pmm _ pmm :=
            ih (passed ++ [bm]) (by simp [split_])
          rw [List.length_append] at again
          simpa [Option.map_map, Function.comp_def, Nat.add_assoc, Nat.add_comm 1] using again

theorem findRegion_missing {page : Nat} {bms : List Bitmap} (missing : bms.findIdx? (·.contains page) = none) :
    bms.find? (·.contains page) = none :=
  List.find?_eq_none.mpr fun bm member => by simpa using List.findIdx?_eq_none_iff.mp missing bm member

/-- The first region that contains a page, by its index. -/
theorem findRegion_found {page : Nat} {bms : List Bitmap} (found : bms.findIdx? (·.contains page) = some i) :
    ∃ bm, bms[i]? = some bm ∧ bms.find? (·.contains page) = some bm ∧
      pmmFreeHint page bms = bms.set i { bm with
        firstFree :=
          if (page - bm.base) / pageSize < bm.firstFree then (page - bm.base) / pageSize else bm.firstFree } := by
  induction bms generalizing i with
  | nil => cases found
  | cons bm rest ih =>
      rw [List.findIdx?_cons] at found
      rw [pmmFreeHint, List.find?_cons]
      cases here : bm.contains page with
      | true =>
          simp only [here, if_true, Option.some.injEq] at found
          subst found
          exact ⟨bm, rfl, rfl, rfl⟩
      | false =>
          simp only [here, Bool.false_eq_true, if_false] at found
          obtain ⟨index, later, rfl⟩ := Option.map_eq_some_iff.mp found
          obtain ⟨other, at_, first, hint⟩ := ih later
          refine ⟨other, at_, first, ?_⟩
          simp only [Bool.false_eq_true, if_false, hint, List.set_cons_succ]

theorem freePage_computes {addr : Nat} (found : pmm.pageBms.findIdx? (·.contains (pageOf addr)) = some i) :
    ComputesPmm fuel (freePage (pageOf addr) i) pmm () (Bwuhos.pmmFree pmm addr) := by
  obtain ⟨bm, here, first, hint⟩ := findRegion_found found
  simp only [Bwuhos.pmmFree, first, hint]
  exact .bind (readBm_computes here) <| .bind (.modify _ _) <| .bind (readBm_computes here) (.modify _ _)

theorem pop_computes {page : Nat} {stk : List Nat} (stacked : pmm.pageStk = page :: stk) :
    ComputesPmm fuel pop pmm page { pmm with pageStk := stk } := .act (by rw [stacked])

theorem pageStkSize_computes (pmm : Pmm) : ComputesPmm fuel pageStkSize pmm pmm.pageStk.length pmm := .get _ pmm

theorem bmScan_lockFree (left free : Nat) : LockFree (bmScan bm left free) := by
  induction left generalizing free with
  | zero => trivial
  | succ left ih =>
      refine ⟨trivial, fun taken => ?_⟩
      cases taken with
      | true => exact ih (free + 1)
      | false => trivial

theorem feedPage_lockFree (index : Nat) : LockFree (feedPage bm index) := by
  refine ⟨trivial, fun taken => ?_⟩
  cases taken with
  | true => trivial
  | false => exact ⟨trivial, fun _ => trivial⟩

theorem bmFeedPages_lockFree (left index : Nat) : LockFree (bmFeedPages bm left index) := by
  induction left generalizing index with
  | zero => trivial
  | succ left ih =>
      refine ⟨feedPage_lockFree index, fun _ => ⟨trivial, fun size => ?_⟩⟩
      dsimp only
      split
      · trivial
      · exact ih (index + 1)

theorem bmFeedRegions_lockFree (left i : Nat) : LockFree (bmFeedRegions left i) := by
  induction left generalizing i with
  | zero => trivial
  | succ left ih =>
      refine ⟨trivial, fun size => ?_⟩
      dsimp only
      split
      · refine ⟨⟨trivial, fun bm => ⟨bmFeedPages_lockFree _ _, fun _ => ⟨bmScan_lockFree _ _, fun _ => trivial⟩⟩⟩, ?_⟩
        exact fun _ => ih (i + 1)
      · trivial

theorem feedEmptyStk_lockFree : LockFree feedEmptyStk := by
  refine ⟨trivial, fun size => ?_⟩
  dsimp only
  split
  · exact ⟨trivial, fun count => bmFeedRegions_lockFree count 0⟩
  · trivial

theorem findRegion_lockFree (page left i : Nat) : LockFree (findRegion page left i) := by
  induction left generalizing i with
  | zero => trivial
  | succ left ih =>
      refine ⟨trivial, fun bm => ?_⟩
      dsimp only
      split
      · trivial
      · exact ih (i + 1)

theorem freePage_lockFree (page i : Nat) : LockFree (freePage page i) :=
  ⟨trivial, fun _ => ⟨trivial, fun _ => ⟨trivial, fun _ => trivial⟩⟩⟩

end

section

variable {World : Type}

theorem pmm_lens : Lens (fun machine : Machine World => machine.pmm) fun pmm machine => { machine with pmm } where
  view_put _ _ := rfl
  put_view _ := rfl
  put_put _ _ _ := rfl

theorem onPmm_bind {Result Next : Type} {env : Env World} {program : PmmProgram Result} {result : Result} {last : Pmm}
    {machine : Machine World} (computes : ComputesPmm env.fuel program machine.pmm result last)
    (rest : Result → Kernel World Next) (held : Mutex → Bool) :
    (onPmm program >>= rest).run .outOfFuel env.fuel held machine =
      (rest result).run .outOfFuel env.fuel held { machine with pmm := last } :=
  Computes.bind_run (Computes.zoom pmm_lens computes) rest held

theorem pmmAlloc_run (env : Env World) : (pmmAlloc env).run .outOfFuel env.fuel = Locking.pmmAlloc env := by
  refine congrArg (Locked.andThen (.lock Mutex.pmm)) (funext fun _ => funext fun held => funext fun machine => ?_)
  refine (onPmm_bind (feedEmptyStk_computes machine.pmm) _ held).trans ?_
  refine (onPmm_bind (pageStkSize_computes _) _ held).trans ?_
  change _ = Locked.andThen Locking.feedEmptyStk _ held machine
  simp only [Locked.andThen, Locking.feedEmptyStk, Locked.modify, Locked.act, Locked.get, bind]
  generalize (if machine.pmm.pageStk.isEmpty then Bwuhos.bmFeedStk machine.pmm else machine.pmm) = fed
  cases stacked : fed.pageStk with
  | nil =>
      simp only [List.length_nil, if_true]
      change Locked.andThen ((kuPrintln env _ _ _).run .outOfFuel env.fuel) _ held _ = _
      rw [kuPrintln_run]
      rfl
  | cons page stk =>
      simp only [List.length_cons, Nat.succ_ne_zero, if_false]
      refine (onPmm_bind (pop_computes stacked) _ held).trans ?_
      rfl

theorem pmmFree_run (env : Env World) (addr : Nat) :
    (pmmFree addr : Kernel World Unit).run .outOfFuel env.fuel = Locking.pmmFree addr := by
  refine congrArg (Locked.andThen (.lock Mutex.pmm)) (funext fun _ => funext fun held => funext fun machine => ?_)
  have count : ComputesPmm env.fuel (.get fun pmm => pmm.pageBms.length) machine.pmm _ machine.pmm := .get _ _
  refine (onPmm_bind count _ held).trans ?_
  refine (onPmm_bind (findRegion_computes (pageOf addr) [] machine.pmm.pageBms rfl) _ held).trans ?_
  cases index : machine.pmm.pageBms.findIdx? (·.contains (pageOf addr)) with
  | none =>
      change _ = Locked.andThen (.get _) _ held machine
      simp only [Locked.andThen, Locked.get, Locked.act, findRegion_missing index]
      rfl
  | some i =>
      simp only [Option.map_some, List.length_nil, Nat.zero_add]
      refine (onPmm_bind (freePage_computes index) _ held).trans ?_
      obtain ⟨bm, _, first, _⟩ := findRegion_found index
      change _ = Locked.andThen (.get _) _ held machine
      simp only [Bwuhos.pmmFree, Locked.andThen, Locked.get, Locked.act, first]
      rfl

end

/-- What a processor asks of the allocator. -/
inductive PageCall where
  | pmmAlloc
  | pmmFree (addr : Nat)
deriving Repr, DecidableEq

/-- The calls with the page that they return, if any. -/
def PageCall.program {World : Type} (env : Env World) : PageCall → Kernel World (Option Nat)
  | .pmmAlloc => do
      let paddr ← Smp.pmmAlloc env
      return some paddr
  | .pmmFree addr => do
      Smp.pmmFree addr
      return none

/-- The calls as the functions of the allocator. -/
def PageCall.apply (pmm : Pmm) : PageCall → Option Nat × Pmm
  | .pmmAlloc => (some (Bwuhos.pmmAlloc pmm).1, (Bwuhos.pmmAlloc pmm).2)
  | .pmmFree addr => (none, Bwuhos.pmmFree pmm addr)

/-- The allocator whose calls are each one step. -/
def pmmObject (start : Pmm → Prop) : AtomicObject PageCall (Option Nat) Pmm where
  start := start
  effect call pmm result after := call.apply pmm = (result, after)

section

variable {World : Type}

/-- The rules of the critical section of a call. -/
abbrev pmmRules (World : Type) (call : PageCall) : Rules Mutex (Machine World) (Stage Pmm (Option Nat)) :=
  sectionRules .pmm (fun machine => machine.pmm) ((pmmObject fun _ => True).effect call)

/-- What a program on the allocator computes, inside a section. -/
theorem onPmm_follows {Result : Type} {call : PageCall} {program : PmmProgram Result} {now last : Pmm} {result : Result}
    (env : Env World) (computes : ComputesPmm env.fuel program now result last) (free : LockFree program)
    (first : Pmm) : Follows (pmmRules World call) (onPmm program) (.inside first now) fun value stage =>
      value = result ∧ stage = .inside first last :=
  computes.follows free pmm_lens first

/-- A message inside a section. -/
theorem printed_quiet {call : PageCall} (env : Env World) (type : Locking.LogType) (msg : String)
    (args : List Locking.PrintArg) (stage : Stage Pmm (Option Nat)) :
    Follows (pmmRules World call) (kuPrintln env type msg args) stage fun _ reached => reached = stage := by
  have nested := kuPrintln_nested env type msg args (show 1 < 2 by decide)
  refine Nested.quiet nested (show 2 ≤ Mutex.rank .pmm from Nat.le_refl 2) (fun state final only => ?_) stage
  obtain ⟨world, rfl⟩ := only
  rfl

theorem pmmAlloc_section (env : Env World) :
    Follows (pmmRules World .pmmAlloc) (pmmAlloc env) .before fun paddr stage => stage = .after (some paddr) := by
  refine follows_enter fun now => ?_
  refine .bind ((onPmm_follows env (feedEmptyStk_computes now) feedEmptyStk_lockFree now).mono
    fun _ stage reached => ?_)
  obtain ⟨_, rfl⟩ := reached
  have effect : PageCall.pmmAlloc.apply now = (some (Bwuhos.pmmAlloc now).1, (Bwuhos.pmmAlloc now).2) := rfl
  simp only [Bwuhos.pmmAlloc] at effect
  generalize (if now.pageStk.isEmpty then Bwuhos.bmFeedStk now else now) = fed at effect ⊢
  refine .bind ((onPmm_follows env (pageStkSize_computes fed) trivial now).mono fun count stage reached => ?_)
  obtain ⟨rfl, rfl⟩ := reached
  cases stacked : fed.pageStk with
  | nil =>
      rw [stacked] at effect
      refine .bind ((printed_quiet env _ _ _ _).mono fun _ stage same => ?_)
      subst same
      exact follows_leave effect rfl
  | cons page stk =>
      rw [stacked] at effect
      refine .bind ((onPmm_follows env (pop_computes stacked) trivial now).mono fun paddr stage reached => ?_)
      obtain ⟨rfl, rfl⟩ := reached
      exact follows_leave effect rfl

theorem pmmFree_section (env : Env World) (addr : Nat) :
    Follows (pmmRules World (.pmmFree addr)) (pmmFree addr) .before fun _ stage => stage = .after none := by
  refine follows_enter fun now => ?_
  have count : ComputesPmm env.fuel (.get fun pmm => pmm.pageBms.length) now now.pageBms.length now := .get _ now
  refine .bind ((onPmm_follows env count trivial now).mono fun left stage reached => ?_)
  obtain ⟨rfl, rfl⟩ := reached
  have found := @findRegion_computes env.fuel now (pageOf addr) [] now.pageBms rfl
  refine .bind ((onPmm_follows env found (findRegion_lockFree _ _ _) now).mono fun i stage reached => ?_)
  obtain ⟨rfl, rfl⟩ := reached
  have effect : (PageCall.pmmFree addr).apply now = (none, Bwuhos.pmmFree now addr) := rfl
  cases index : now.pageBms.findIdx? (·.contains (pageOf addr)) with
  | none =>
      simp only [Bwuhos.pmmFree, findRegion_missing index] at effect
      exact follows_last effect
  | some i =>
      simp only [Option.map_some, List.length_nil, Nat.zero_add]
      refine .bind ((onPmm_follows env (freePage_computes index) (freePage_lockFree _ _) now).mono
        fun _ stage reached => ?_)
      obtain ⟨_, rfl⟩ := reached
      exact follows_last effect

theorem pageCall_section (env : Env World) (call : PageCall) :
    Follows (pmmRules World call) (call.program env) .before fun result stage => stage = .after result := by
  cases call with
  | pmmAlloc => exact .bind (pmmAlloc_section env)
  | pmmFree addr => exact .bind (pmmFree_section env addr)

open TransitionSystem Processors

variable {Cpu : Type} [DecidableEq Cpu]

theorem pmm_simulates (env : Env World) (start : Pmm → Prop) :
    Simulates (system Cpu (PageCall.program env) fun machine => start machine.pmm) ((pmmObject start).system Cpu)
      (Matches .pmm (fun machine => machine.pmm) (pmmObject start)) :=
  sections_simulate (fun _ starts => starts) (pageCall_section env)

/-- Whatever the order of their accesses to the stack, the hints and the bitmaps, the calls
of any number of processors take effect one at a time, as the functions of the allocator do. -/
theorem pmm_atomic (env : Env World) (start : Pmm → Prop) {trace : List (CallEvent Cpu PageCall (Option Nat))}
    (traced : (system Cpu (PageCall.program env) fun machine => start machine.pmm).Trace trace) :
    ((pmmObject start).system Cpu).Trace trace :=
  (pmm_simulates env start).traces traced

/-- Who allocates a page has it, up to its call that frees an address in it. -/
def pageLoans : Loans PageCall (Option Nat) Nat where
  takes
    | .pmmAlloc, some page => if page = physAddrNull then none else some page
    | _, _ => none
  gives
    | .pmmAlloc => none
    | .pmmFree addr => some (pageOf addr)
  apart call _ _ gives := by
    cases call with
    | pmmAlloc => cases gives
    | pmmFree addr => rfl

variable {ents : List MemlEnt} {mem : ByteMemory}

theorem pmmObject_lends (laid : Laid (ents.map pageBm))
    (bounded : ∀ bm ∈ ents.map pageBm, bm.base + 4096 * bm.npage < 2 ^ 64) :
    Lends (pmmObject fun pmm => pmm = pmmInit ents mem) pageLoans (Owned (ents.map pageBm)) (staleFrames ents mem) where
  start := by
    intro pmm same
    subst same
    exact Owned.initStale laid
  takes := by
    intro call result item pmm after out effect owned _ takes
    cases call with
    | pmmFree addr => cases takes
    | pmmAlloc =>
        cases effect
        simp only [pageLoans] at takes
        split at takes
        · cases takes
        · next notNull =>
            cases takes
            obtain ⟨bm, _, index, _, same, fresh, next⟩ | ⟨null, _⟩ := owned.alloc laid
            · rw [same]
              exact ⟨fresh, next⟩
            · exact absurd null notNull
  gives := by
    intro call result item pmm after out effect owned gives handedOut
    cases call with
    | pmmAlloc => cases gives
    | pmmFree addr =>
        cases effect
        cases gives
        exact owned.free laid handedOut (owned.searched laid bounded handedOut)
  other := by
    intro call result pmm after out effect owned gives takes
    cases call with
    | pmmFree addr => cases gives
    | pmmAlloc =>
        cases effect
        simp only [pageLoans] at takes
        split at takes
        · next null =>
            obtain ⟨bm, member, index, bound, same, _⟩ | ⟨_, _, next⟩ := owned.alloc laid
            · exact absurd (same.symm.trans null) ((laid.placed bm member).frame_ne_null bound)
            · exact next
        · cases takes

/-- As long as every processor frees only pages that it has, no two have the same page, and
between calls the allocator has every other frame that was not marked from the start. -/
theorem pmm_exclusive (usable : ∀ ent ∈ ents, ent.Usable) (below : ∀ ent ∈ ents, ent.base + ent.size < 2 ^ 64)
    (disjoint : ents.Pairwise MemlEnt.Disjoint) (env : Env World)
    {first last : Processors Cpu Mutex Stop (Machine World) PageCall (Option Nat)}
    {labels : List (Option (CallEvent Cpu PageCall (Option Nat)))}
    (starts : (system Cpu (PageCall.program env) fun machine => machine.pmm = pmmInit ents mem).initial first)
    (run : (system Cpu (PageCall.program env) fun machine => machine.pmm = pmmInit ents mem).Run first labels last)
    (honest : pageLoans.HonestTrace (visible labels)) :
    ((pageLoans.holdings (visible labels)).map Prod.snd).Nodup ∧
      (∀ pair ∈ pageLoans.holdings (visible labels),
        pair.2 ∈ managedPages ents ∧ pair.2 ∉ staleFrames ents mem) ∧
      ((∀ cpu, last.running cpu = none) → ∃ out, Owned (ents.map pageBm) last.state.pmm out ∧
        ∀ page, page ∈ out ↔ page ∈ staleFrames ents mem ∨
          ∃ cpu, (cpu, page) ∈ pageLoans.holdings (visible labels)) := by
  have laid := pageBms_laid usable disjoint
  have bounded : ∀ bm ∈ ents.map pageBm, bm.base + 4096 * bm.npage < 2 ^ 64 := by
    intro bm member
    obtain ⟨ent, inEnts, rfl⟩ := List.mem_map.mp member
    exact (pageBm_bound (usable ent inEnts)).mpr (Nat.ne_of_lt (below ent inEnts))
  have simulates := @pmm_simulates World Cpu _ env fun pmm => pmm = pmmInit ents mem
  obtain ⟨start, begins, same⟩ := simulates.initial first starts
  obtain ⟨others, state, ran, seen, ends⟩ := simulates.run same run
  rw [← seen] at honest ⊢
  obtain ⟨nodup, out, owned, reserved, held, covered⟩ := (pmmObject_lends laid bounded).exclusive begins ran honest
  refine ⟨nodup, fun pair member => ⟨?_, (held pair member).2⟩, fun idle => ?_⟩
  · exact mem_managedPages.mpr (owned.managed pair.2 (Or.inr (held pair member).1))
  · obtain ⟨phases, unchanged⟩ := ends.idle idle
    refine ⟨out, unchanged ▸ owned, fun page => ⟨covered phases page, fun owner => ?_⟩⟩
    obtain stale | ⟨cpu, member⟩ := owner
    · exact reserved stale
    · exact (held _ member).1

end

/-- An allocator of fifteen pages, with no device beside it. -/
def smallMachine : Machine Unit where
  busCache := []
  world := ()
  pmm := pmmInit [{ base := 0x100000, size := 0x10000 }] fun _ => 0#8
  kheap := { mem := fun _ => 0, khHead := 0, khTail := 0, khNpages := 0, mapped := [], pmm := fun _ => 0, taken := 0 }
  paging := { mem := fun _ => 0, pmm := fun _ => 0, taken := 0 }
  cr3 := 0
  low := fun _ => 0

def quietEnv : Env Unit where
  bus := { ports := quietPorts, beyond := ⟨0, 0, 0⟩ }
  platform := .zeroed
  space := .whole
  fuel := 0

/-- A call that finds the mutex free and a page on the stack. -/
theorem pageCall_run {World : Type} (env : Env World) {held : Mutex → Bool} {machine : Machine World} {page : Nat}
    {stk : List Nat} (free : held .pmm = false) (stacked : machine.pmm.pageStk = page :: stk) :
    (PageCall.pmmAlloc.program env).run .outOfFuel env.fuel held machine =
      .returned (some page) held { machine with pmm := { machine.pmm with pageStk := stk } } := by
  change Locked.andThen ((pmmAlloc env).run .outOfFuel env.fuel) _ held machine = _
  rw [pmmAlloc_run]
  have back : Function.update (Function.update held .pmm true) .pmm false = held := by
    rw [Function.update_idem, ← free, Function.update_eq_self]
  simp [Locking.pmmAlloc, Locking.feedEmptyStk, bind, pure, Locked.andThen, Locked.lock, Locked.unlock, Locked.modify,
    Locked.get, Locked.act, Locked.ret, run, free, stacked, back]

section

open TransitionSystem Processors

theorem pageCall_alone {World Cpu : Type} [DecidableEq Cpu] (env : Env World) (start : Pmm → Prop) (cpu : Cpu)
    (s : Processors Cpu Mutex Stop (Machine World) PageCall (Option Nat)) (idle : s.running cpu = none)
    (free : s.held .pmm = false) {page : Nat} {stk : List Nat} (stacked : s.state.pmm.pageStk = page :: stk) :
    ∃ labels, (system Cpu (PageCall.program env) fun machine => start machine.pmm).Run s labels
      { s with state := { s.state with pmm := { s.state.pmm with pageStk := stk } } } ∧
        visible labels = [.begins cpu .pmmAlloc, .returns cpu .pmmAlloc (some page)] :=
  call_alone cpu idle (pageCall_run env free stacked)

def smallStart (pmm : Pmm) : Prop := pmm = pmmInit [{ base := 0x100000, size := 0x10000 }] fun _ => 0#8

def smallProcessors : Processors Bool Mutex Stop (Machine Unit) PageCall (Option Nat) where
  running := fun _ => none
  held := fun _ => false
  state := smallMachine

theorem smallProcessors_initial :
    (system Bool (PageCall.program quietEnv) fun machine => smallStart machine.pmm).initial smallProcessors :=
  ⟨fun _ => rfl, fun _ => rfl, rfl⟩

theorem smallProcessors_run : ∃ labels last,
    (system Bool (PageCall.program quietEnv) fun machine => smallStart machine.pmm).Run smallProcessors labels last ∧
      visible labels = [.begins false .pmmAlloc, .returns false .pmmAlloc (some 0x10f000),
        .begins true .pmmAlloc, .returns true .pmmAlloc (some 0x10e000)] := by
  obtain ⟨stk, stacked⟩ : ∃ stk, smallProcessors.state.pmm.pageStk = 0x10f000 :: 0x10e000 :: stk := ⟨_, rfl⟩
  obtain ⟨labels, begins, seen⟩ := pageCall_alone quietEnv smallStart false smallProcessors rfl rfl stacked
  obtain ⟨others, ends, seenThen⟩ := pageCall_alone quietEnv smallStart true { smallProcessors with
    state := { smallMachine with pmm := { smallMachine.pmm with pageStk := 0x10e000 :: stk } } } rfl rfl rfl
  refine ⟨_, _, begins.append ends, ?_⟩
  rw [visible_append, seen, seenThen]
  rfl

theorem pmm_atomic_smallProcessors : ((pmmObject smallStart).system Bool).Trace
    [.begins false .pmmAlloc, .returns false .pmmAlloc (some 0x10f000),
      .begins true .pmmAlloc, .returns true .pmmAlloc (some 0x10e000)] := by
  obtain ⟨labels, last, run, seen⟩ := smallProcessors_run
  exact pmm_atomic quietEnv smallStart ⟨smallProcessors, labels, last, smallProcessors_initial, run, seen⟩

theorem pmm_exclusive_smallProcessors : ∃ labels last,
    (system Bool (PageCall.program quietEnv) fun machine => smallStart machine.pmm).Run smallProcessors labels last ∧
      pageLoans.holdings (visible labels) = [(false, 0x10f000), (true, 0x10e000)] ∧
      ((pageLoans.holdings (visible labels)).map Prod.snd).Nodup := by
  obtain ⟨labels, last, run, seen⟩ := smallProcessors_run
  have honest : pageLoans.HonestTrace (visible labels) := by
    rw [seen]
    simp [Loans.HonestTrace, Loans.HonestFrom, Loans.Honest, pageLoans]
  refine ⟨labels, last, run, by rw [seen]; rfl, ?_⟩
  have below : ∀ ent ∈ [({ base := 0x100000, size := 0x10000 } : MemlEnt)], ent.base + ent.size < 2 ^ 64 := by
    simp
  exact (pmm_exclusive smallMemory_ready.usable below smallMemory_ready.disjoint quietEnv smallProcessors_initial run
    honest).1

end

end Bwuhos.Smp
