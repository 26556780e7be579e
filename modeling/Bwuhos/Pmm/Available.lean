import Bwuhos.Pmm.Runs

namespace Bwuhos

open Bwuhos.Data

/-! # Which pages are said to be available

`pmm_avl` returns the bit of a page, and that bit is set for the pages in use.
-/

/-- A run, and the page that the last call took back, if it was a `pmm_free` of a page that
was handed out. -/
structure FreedRun extends PmmRun where
  freed : Option Nat

def freedSystem (ents : List MemlEnt) (mem : ByteMemory) : TransitionSystem FreedRun PmmCall where
  initial run := (pmmSystem ents mem).initial run.toPmmRun ∧ run.freed = none
  step before call after := (pmmSystem ents mem).step before.toPmmRun call after.toPmmRun ∧ after.freed =
    match call with
    | .alloc => none
    | .free addr => if pageOf addr.toNat ∈ before.out then some (pageOf addr.toNat) else none

/-- What `pmm_avl` should answer: true only in a managed page that is not handed out, and
certainly in one that has just been taken back. -/
structure AvlRight (ents : List MemlEnt) (run : FreedRun) (addr : Nat) : Prop where
  only : pmmAvl run.pmm addr = true → pageOf addr ∈ managedPages ents ∧ pageOf addr ∉ run.out
  freed : run.freed = some (pageOf addr) → pmmAvl run.pmm addr = true

variable {ents : List MemlEnt} {mem : ByteMemory} {regions : List Bitmap} {pmm : Pmm} {out : Finset Nat}
  {run : FreedRun} {addr : Nat}

/-- The answer is true for the pages on the stack and for those that are handed out, where the
search finds them. -/
theorem Owned.pmmAvl_iff (laid : Laid regions) (owned : Owned regions pmm out) (bound : addr < 2 ^ 64) :
    pmmAvl pmm addr = true ↔ (∃ bm ∈ regions, bm.contains (pageOf addr) = true) ∧
      (pageOf addr ∈ pmm.pageStk ∨ pageOf addr ∈ out) := by
  have aligned : pageOf addr % 4096 = 0 := by
    rw [pageOf_eq bound]
    omega
  unfold pmmAvl
  cases search : pmm.pageBms.find? (·.contains (pageOf addr)) with
  | none =>
      refine iff_of_false Bool.false_ne_true fun owner => ?_
      obtain ⟨bm, found⟩ := owned.find_region owner.1
      cases search.symm.trans found
  | some bm =>
      obtain ⟨inList, within, same⟩ := owned.found_region laid aligned search
      have found : bm.contains (pageOf addr) = true :=
        List.find?_some (p := fun bm : Bitmap => bm.contains (pageOf addr)) search
      have bits := owned.bits bm.reset (owned.member inList) _ within
      rw [Bitmap.reset_frame, ← same] at bits
      exact bits.trans (and_iff_right ⟨_, owned.member inList, found⟩).symm

theorem pmmFree_pageStk (pmm : Pmm) (addr : Nat) : (pmmFree pmm addr).pageStk = pmm.pageStk := by
  unfold pmmFree
  dsimp only
  split <;> rfl

/-- The run is one of the allocator, and nobody owns a page that has just been taken back. -/
structure FreedOk (ents : List MemlEnt) (mem : ByteMemory) (run : FreedRun) : Prop where
  reached : (pmmSystem ents mem).Reachable run.toPmmRun
  unowned : ∀ page, run.freed = some page → page ∉ run.pmm.pageStk ∧ page ∉ run.out

theorem freed_reachable_ok (ready : MemoryReady ents mem) (reached : (freedSystem ents mem).Reachable run) :
    FreedOk ents mem run := by
  refine reached.invariant (FreedOk ents mem) ?_ ?_
  · intro run starts
    have reachable := TransitionSystem.Reachable.initial starts.1
    refine ⟨reachable, fun page freed => ?_⟩
    cases starts.2.symm.trans freed
  · intro before call after _ ok taken
    have reachable := TransitionSystem.Reachable.step ok.reached taken.1
    refine ⟨reachable, fun page freed => ?_⟩
    obtain ⟨stepped, recorded⟩ := taken
    cases call with
    | alloc => cases recorded.symm.trans freed
    | free addr =>
        rw [freed] at recorded
        dsimp only at recorded
        split at recorded
        · next handedOut =>
            cases recorded
            obtain ⟨lost, loses⟩ := pmm_reachable_loses ready ok.reached
            have unstacked : pageOf addr.toNat ∉ before.pmm.pageStk := fun stacked =>
              loses.owned.apart _ stacked (Finset.mem_union_left _ handedOut)
            obtain ⟨_, same⟩ := stepped
            have stack : after.pmm.pageStk = before.pmm.pageStk := by
              rw [same]
              exact pmmFree_pageStk before.pmm addr.toNat
            rw [stack, same]
            exact ⟨unstacked, Finset.notMem_erase _ _⟩
        · cases recorded

/-- In every reachable state `pmm_avl` is right about just the addresses in pages that are
not handed out, or that its search does not find, and that the last call has not taken back. -/
theorem pmm_avl_right_iff (ready : MemoryReady ents mem) (reached : (freedSystem ents mem).Reachable run)
    (addr : UInt64) :
    AvlRight ents run addr.toNat ↔ (pageOf addr.toNat ∉ run.out ∨ InTop ents (pageOf addr.toNat)) ∧
      run.freed ≠ some (pageOf addr.toNat) := by
  have ok := freed_reachable_ok ready reached
  obtain ⟨lost, loses⟩ := pmm_reachable_loses ready ok.reached
  have answer := loses.owned.pmmAvl_iff ready.laid addr.toNat_lt
  have searched := fun managed => @searched_iff ents mem (pageOf addr.toNat) ready managed
  constructor
  · intro right
    constructor
    · by_contra both
      obtain ⟨handedOut, low⟩ := not_or.mp both
      have owner := Finset.mem_union_left lost (not_not.mp handedOut)
      have found := (searched (loses.managed (Or.inr owner))).mpr low
      exact handedOut (right.only (answer.mpr ⟨found, Or.inr owner⟩)).2
    · intro freed
      obtain ⟨unstacked, unheld⟩ := ok.unowned _ freed
      obtain ⟨found, owner⟩ := answer.mp (right.freed freed)
      have isLost := (Finset.mem_union.mp (owner.resolve_left unstacked)).resolve_left unheld
      exact (searched (loses.managed owner)).mp found (loses.top _ isLost)
  · intro condition
    obtain ⟨unheld, notFreed⟩ := condition
    constructor
    · intro available
      obtain ⟨found, owner⟩ := answer.mp available
      have managed := loses.managed owner
      exact ⟨managed, unheld.resolve_right ((searched managed).mp found)⟩
    · intro freed
      exact absurd freed notFreed

def smallMemory : List MemlEnt := [{ base := 0x100000, size := 0x10000 }]

/-- The last page of the region is the first to be handed out. -/
def heldRun : FreedRun where
  pmm := (pmmAlloc (pmmInit smallMemory fun _ => 0#8)).2
  out := {0x10f000}
  freed := none

def freedRun : FreedRun where
  pmm := pmmFree heldRun.pmm 0x10f000
  out := ∅
  freed := some 0x10f000

theorem heldRun_reachable : (freedSystem smallMemory fun _ => 0#8).Reachable heldRun := by
  have page : (pmmAlloc (pmmInit smallMemory fun _ => 0#8)).1 = 0x10f000 := by decide +kernel
  have start : (freedSystem smallMemory fun _ => 0#8).Reachable ⟨⟨pmmInit smallMemory fun _ => 0#8, ∅⟩, none⟩ :=
    .initial ⟨rfl, rfl⟩
  have taken : (freedSystem smallMemory fun _ => 0#8).step ⟨⟨pmmInit smallMemory fun _ => 0#8, ∅⟩, none⟩ .alloc
      heldRun := by
    refine ⟨?_, rfl⟩
    simp only [pmmSystem, page]
    rfl
  exact start.step taken

theorem freedRun_reachable : (freedSystem smallMemory fun _ => 0#8).Reachable freedRun := by
  have handedOut : pageOf (0x10f000 : UInt64).toNat ∈ heldRun.out := by decide
  have allowed : FreeAllowed smallMemory heldRun.out (0x10f000 : UInt64).toNat :=
    Or.inl ⟨0x10f000, by decide, by decide, by decide⟩
  have taken : (freedSystem smallMemory fun _ => 0#8).step heldRun (.free 0x10f000) freedRun :=
    ⟨⟨allowed, rfl⟩, (if_pos handedOut).symm⟩
  exact heldRun_reachable.step taken

theorem pmm_avl_right_iff_smallMemory : AvlRight smallMemory heldRun 0x101000 :=
  (pmm_avl_right_iff smallMemory_ready heldRun_reachable 0x101000).mpr ⟨.inl (by decide), by decide⟩

/-- A page that is handed out is said to be available, and one that was taken back not to be. -/
theorem pmm_avl_inverted : (freedSystem smallMemory fun _ => 0#8).Reachable heldRun ∧
    pageOf 0x10f000 ∈ heldRun.out ∧ pmmAvl heldRun.pmm 0x10f000 = true ∧ ¬AvlRight smallMemory heldRun 0x10f000 ∧
    (freedSystem smallMemory fun _ => 0#8).Reachable freedRun ∧ freedRun.freed = some (pageOf 0x10f000) ∧
    pmmAvl freedRun.pmm 0x10f000 = false ∧ ¬AvlRight smallMemory freedRun 0x10f000 := by
  have held : pageOf 0x10f000 ∈ heldRun.out := by decide
  have available : pmmAvl heldRun.pmm 0x10f000 = true := by decide +kernel
  have unavailable : pmmAvl freedRun.pmm 0x10f000 = false := by decide +kernel
  refine ⟨heldRun_reachable, held, available, fun right => ?_, freedRun_reachable, by decide, unavailable,
    fun right => ?_⟩
  · exact (right.only available).2 held
  · have freed : freedRun.freed = some (pageOf 0x10f000) := by decide
    cases unavailable.symm.trans (right.freed freed)

end Bwuhos
