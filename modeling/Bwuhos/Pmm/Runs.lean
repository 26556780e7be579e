import Bwuhos.Pmm.Ownership
import Bwuhos.Data.Transition
import Bwuhos.Data.Pool

namespace Bwuhos

open Bwuhos.Data

/-! # Runs of the page frame allocator -/

structure PmmRun where
  pmm : Pmm
  out : Finset Nat

inductive PmmCall where
  | alloc
  | free (addr : UInt64)

/-- Usable entries that share no byte, with a zero byte wherever `pmm.c` looks for the
bit of a frame. -/
structure MemoryReady (ents : List MemlEnt) (mem : ByteMemory) : Prop where
  usable : ∀ ent ∈ ents, ent.Usable
  disjoint : ents.Pairwise MemlEnt.Disjoint
  bitmapZero : ∀ ent ∈ ents, ∀ index < (pageBm ent).npage, mem (BitArray.byteAddress ent.base index) = 0#8

def managedPages (ents : List MemlEnt) : Finset Nat :=
  (ents.flatMap fun ent => (List.range (pageBm ent).npage).map (pageBm ent).frame).toFinset

/-- The bit that stands for the page is set in the bitmap of its region. -/
def BitSet (ents : List MemlEnt) (mem : ByteMemory) (page : Nat) : Prop :=
  ∃ ent ∈ ents, ∃ index < (pageBm ent).npage, page = (pageBm ent).frame index ∧
    (pageBm ent).taken mem index = true

/-- The address lies in the page frames of the entry. -/
def MemlEnt.InFrames (ent : MemlEnt) (addr : Nat) : Prop :=
  (pageBm ent).base ≤ addr ∧ addr < (pageBm ent).base + pageSize * (pageBm ent).npage

/-- The address lies in the page frames of an entry that ends at 2^64. -/
def InTop (ents : List MemlEnt) (addr : Nat) : Prop :=
  ∃ ent ∈ ents, ent.base + ent.size = 2 ^ 64 ∧ ent.InFrames addr

/-- The address is in a page that is handed out, or in no managed page at all. -/
def FreeAllowed (ents : List MemlEnt) (out : Finset Nat) (addr : Nat) : Prop :=
  (∃ page ∈ out, page ≤ addr ∧ addr < page + pageSize) ∨
    ∀ page ∈ managedPages ents, ¬(page ≤ addr ∧ addr < page + pageSize)

def pmmSystem (ents : List MemlEnt) (mem : ByteMemory) : TransitionSystem PmmRun PmmCall where
  initial run := run = { pmm := pmmInit ents mem, out := ∅ }
  step before call after :=
    match call with
    | .alloc => after = {
        pmm := (pmmAlloc before.pmm).2
        out := if (pmmAlloc before.pmm).1 = physAddrNull then before.out
          else insert (pmmAlloc before.pmm).1 before.out }
    | .free addr => FreeAllowed ents before.out addr.toNat ∧ after = {
        pmm := pmmFree before.pmm addr.toNat
        out := before.out.erase (pageOf addr.toNat) }

def pmmTake (pmm : Pmm) : Option Nat × Pmm :=
  (if (pmmAlloc pmm).1 = physAddrNull then none else some (pmmAlloc pmm).1, (pmmAlloc pmm).2)

variable {ents : List MemlEnt} {mem : ByteMemory} {run : PmmRun} {page addr : Nat}

theorem mem_managedPages : page ∈ managedPages ents ↔
    ∃ bm ∈ ents.map pageBm, ∃ index < bm.npage, page = bm.frame index := by
  simp [managedPages, eq_comm]

theorem MemoryReady.laid (ready : MemoryReady ents mem) : Laid (ents.map pageBm) :=
  pageBms_laid ready.usable ready.disjoint

theorem MemoryReady.clear (ready : MemoryReady ents mem) :
    ∀ bm ∈ ents.map pageBm, ∀ index < bm.npage, bm.taken mem index = false := by
  intro bm member index bound
  obtain ⟨ent, inEnts, rfl⟩ := List.mem_map.mp member
  apply BitArray.test_of_zero
  rw [(pageBm_inside (ready.usable ent inEnts)).1]
  exact ready.bitmapZero ent inEnts index bound

theorem pageOf_inside (aligned : page % 4096 = 0) (bound : addr < 2 ^ 64)
    (inside : page ≤ addr ∧ addr < page + pageSize) : pageOf addr = page := by
  unfold pageSize at inside
  rw [pageOf_eq bound]
  omega

section

variable {ent : MemlEnt} {index : Nat}

/-- The bound of a region wraps just when its entry ends at 2^64. -/
theorem pageBm_bound (usable : ent.Usable) :
    (pageBm ent).base + 4096 * (pageBm ent).npage < 2 ^ 64 ↔ ent.base + ent.size ≠ 2 ^ 64 := by
  have aligned := usable.aligned
  have large := usable.large
  have ends := usable.ends
  unfold pageSize at aligned large
  rw [pageBm_eq usable]
  dsimp only
  omega

theorem frame_inFrames (placed : (pageBm ent).Placed) (bound : index < (pageBm ent).npage) :
    ent.InFrames ((pageBm ent).frame index) := by
  rw [MemlEnt.InFrames, placed.frame_eq bound, pageSize]
  omega

theorem MemlEnt.InFrames.frame (placed : (pageBm ent).Placed) (word : addr < 2 ^ 64) (inside : ent.InFrames addr) :
    ∃ index < (pageBm ent).npage, pageOf addr = (pageBm ent).frame index := by
  have aligned := placed.aligned
  unfold MemlEnt.InFrames pageSize at inside
  have bound : (addr - (pageBm ent).base) / 4096 < (pageBm ent).npage := by omega
  refine ⟨_, bound, ?_⟩
  rw [placed.frame_eq bound, pageOf_eq word]
  omega

theorem inTop_frame (ready : MemoryReady ents mem) (inEnts : ent ∈ ents) (bound : index < (pageBm ent).npage) :
    InTop ents ((pageBm ent).frame index) ↔ ent.base + ent.size = 2 ^ 64 := by
  have laid := ready.laid
  have placed := fun (ent : MemlEnt) (member : ent ∈ ents) => laid.placed _ (List.mem_map_of_mem member)
  constructor
  · rintro ⟨other, otherMember, top, inside⟩
    have word : (pageBm ent).frame index < 2 ^ 64 := u64_lt _
    obtain ⟨position, within, same⟩ := inside.frame (placed other otherMember) word
    rw [pageOf_eq word, (by have := (placed ent inEnts).frame_aligned bound; omega :
      (pageBm ent).frame index / 4096 * 4096 = (pageBm ent).frame index)] at same
    obtain ⟨home, _⟩ := laid.frame_inj (List.mem_map_of_mem inEnts) (List.mem_map_of_mem otherMember) bound within same
    have wraps := (not_congr (pageBm_bound (ready.usable other otherMember))).mpr (not_not.mpr top)
    rw [← home, pageBm_bound (ready.usable ent inEnts)] at wraps
    exact not_not.mp wraps
  · exact fun top => ⟨ent, inEnts, top, frame_inFrames (placed ent inEnts) bound⟩

end

/-- The search of `pmm_free` and `pmm_avl` finds a managed page unless it is at the top. -/
theorem searched_iff (ready : MemoryReady ents mem) (managed : page ∈ managedPages ents) :
    (∃ bm ∈ ents.map pageBm, bm.contains page = true) ↔ ¬InTop ents page := by
  obtain ⟨bm, member, index, bound, rfl⟩ := mem_managedPages.mp managed
  obtain ⟨ent, inEnts, rfl⟩ := List.mem_map.mp member
  have laid := ready.laid
  have found := (laid.placed _ member).contains_frame bound
  rw [inTop_frame ready inEnts bound, ← ne_eq, ← pageBm_bound (ready.usable ent inEnts), ← found]
  constructor
  · rintro ⟨other, otherMember, contained⟩
    exact laid.contains_home member otherMember bound contained ▸ contained
  · exact fun contained => ⟨_, member, contained⟩

theorem inTop_pageOf (ready : MemoryReady ents mem) (word : addr < 2 ^ 64) (top : InTop ents addr) :
    pageOf addr ∈ managedPages ents ∧ InTop ents (pageOf addr) := by
  obtain ⟨ent, inEnts, ends, inside⟩ := top
  have member : pageBm ent ∈ ents.map pageBm := List.mem_map_of_mem inEnts
  obtain ⟨index, bound, same⟩ := inside.frame (ready.laid.placed _ member) word
  rw [same]
  exact ⟨mem_managedPages.mpr ⟨_, member, index, bound, rfl⟩, (inTop_frame ready inEnts bound).mpr ends⟩

/-- The pages that are neither handed out nor ever handed out again: those that were given back
at the top, where `pmm_free` does not find them. -/
structure PmmRun.Loses (ents : List MemlEnt) (run : PmmRun) (lost : Finset Nat) : Prop where
  owned : Owned (ents.map pageBm) run.pmm (run.out ∪ lost)
  apart : ∀ page ∈ lost, page ∉ run.out
  top : ∀ page ∈ lost, InTop ents page

namespace PmmRun.Loses

variable {lost : Finset Nat} {before after : PmmRun} {call : PmmCall}

theorem managed (loses : run.Loses ents lost) (owner : page ∈ run.pmm.pageStk ∨ page ∈ run.out ∪ lost) :
    page ∈ managedPages ents :=
  mem_managedPages.mpr (loses.owned.managed page owner)

theorem alloc (ready : MemoryReady ents mem) (loses : run.Loses ents lost) : PmmRun.Loses ents {
    pmm := (pmmAlloc run.pmm).2
    out := if (pmmAlloc run.pmm).1 = physAddrNull then run.out else insert (pmmAlloc run.pmm).1 run.out } lost := by
  obtain ⟨bm, member, index, bound, same, fresh, next⟩ | ⟨null, _, next⟩ := loses.owned.alloc ready.laid
  · rw [same, if_neg ((ready.laid.placed bm member).frame_ne_null bound)]
    refine ⟨by rwa [Finset.insert_union], fun page isLost isOut => ?_, loses.top⟩
    obtain rfl | old := Finset.mem_insert.mp isOut
    · exact fresh (Finset.mem_union_right _ isLost)
    · exact loses.apart page isLost old
  · rw [if_pos null]
    exact ⟨next, loses.apart, loses.top⟩

/-- A page that is handed out comes back to the allocator. -/
theorem free (ready : MemoryReady ents mem) (loses : run.Loses ents lost) (isOut : pageOf addr ∈ run.out)
    (low : ¬InTop ents (pageOf addr)) :
    PmmRun.Loses ents { pmm := pmmFree run.pmm addr, out := run.out.erase (pageOf addr) } lost := by
  have handedOut := Finset.mem_union_left lost isOut
  have freed := loses.owned.free ready.laid handedOut
    ((searched_iff ready (loses.managed (Or.inr handedOut))).mpr low)
  have notLost : pageOf addr ∉ lost := fun isLost => loses.apart _ isLost isOut
  rw [Finset.erase_union_distrib, Finset.erase_eq_of_notMem notLost] at freed
  exact ⟨freed, fun page isLost still => loses.apart page isLost (Finset.mem_of_mem_erase still), loses.top⟩

/-- A page at the top stays marked in its bitmap. -/
theorem free_top (ready : MemoryReady ents mem) (loses : run.Loses ents lost) (isOut : pageOf addr ∈ run.out)
    (top : InTop ents (pageOf addr)) :
    PmmRun.Loses ents { pmm := pmmFree run.pmm addr, out := run.out.erase (pageOf addr) }
      (insert (pageOf addr) lost) := by
  have handedOut := Finset.mem_union_left lost isOut
  have missing := (not_congr (searched_iff ready (loses.managed (Or.inr handedOut)))).mpr (not_not.mpr top)
  have same : run.out.erase (pageOf addr) ∪ insert (pageOf addr) lost = run.out ∪ lost := by
    rw [Finset.union_insert, ← Finset.insert_union, Finset.insert_erase isOut]
  refine ⟨?_, fun page isLost still => ?_, fun page isLost => ?_⟩
  · rw [same, loses.owned.free_unsearched fun bm member found => missing ⟨bm, member, found⟩]
    exact loses.owned
  · obtain rfl | old := Finset.mem_insert.mp isLost
    · exact Finset.notMem_erase _ _ still
    · exact loses.apart page old (Finset.mem_of_mem_erase still)
  · obtain rfl | old := Finset.mem_insert.mp isLost
    · exact top
    · exact loses.top page old

theorem free_outside (loses : run.Loses ents lost) (laid : Laid (ents.map pageBm)) (word : addr < 2 ^ 64)
    (outside : ∀ page ∈ managedPages ents, ¬(page ≤ addr ∧ addr < page + pageSize)) :
    pageOf addr ∉ managedPages ents ∧
      PmmRun.Loses ents { pmm := pmmFree run.pmm addr, out := run.out.erase (pageOf addr) } lost := by
  have unmanaged : pageOf addr ∉ managedPages ents := fun managed => by
    refine outside _ managed ?_
    rw [pageOf_eq word]
    unfold pageSize
    omega
  have aligned : pageOf addr % 4096 = 0 := by rw [pageOf_eq word]; omega
  have notOut : pageOf addr ∉ run.out := fun isOut =>
    unmanaged (loses.managed (Or.inr (Finset.mem_union_left _ isOut)))
  have missing : ∀ bm ∈ ents.map pageBm, bm.contains (pageOf addr) ≠ true := fun bm member found =>
    have ⟨within, same⟩ := (laid.placed bm member).frame_of_contains aligned found
    unmanaged (mem_managedPages.mpr ⟨bm, member, _, within, same⟩)
  rw [loses.owned.free_unsearched missing, Finset.erase_eq_of_notMem notOut]
  exact ⟨unmanaged, loses⟩

/-- One call loses a page just when it gives one back at the top. -/
theorem step (ready : MemoryReady ents mem) (loses : before.Loses ents lost)
    (taken : (pmmSystem ents mem).step before call after) : ∃ left, after.Loses ents left ∧
      (left = ∅ ↔ lost = ∅ ∧ ∀ addr, call = .free addr → ¬InTop ents addr.toNat) := by
  cases call with
  | alloc =>
      cases taken
      exact ⟨lost, loses.alloc ready, by simp⟩
  | free addr =>
      obtain ⟨allowed, rfl⟩ := taken
      have word := addr.toNat_lt
      obtain ⟨page, isOut, inside⟩ | outside := allowed
      · have managed := loses.managed (Or.inr (Finset.mem_union_left _ isOut))
        obtain ⟨bm, member, index, within, rfl⟩ := mem_managedPages.mp managed
        have same := pageOf_inside ((ready.laid.placed bm member).frame_aligned within) word inside
        rw [← same] at isOut
        by_cases top : InTop ents (pageOf addr.toNat)
        · refine ⟨_, loses.free_top ready isOut top, iff_of_false (Finset.insert_ne_empty _ _) fun none => ?_⟩
          obtain ⟨ent, inEnts, ends, frames⟩ := top
          refine none.2 addr rfl ⟨ent, inEnts, ends, ?_⟩
          have aligned := (ready.laid.placed _ (List.mem_map_of_mem inEnts)).aligned
          rw [MemlEnt.InFrames, pageOf_eq word, pageSize] at frames
          rw [MemlEnt.InFrames, pageSize]
          omega
        · refine ⟨lost, loses.free ready isOut top, ⟨fun none => ⟨none, ?_⟩, fun both => both.1⟩⟩
          rintro _ ⟨⟩ atTop
          exact top (inTop_pageOf ready word atTop).2
      · obtain ⟨unmanaged, next⟩ := loses.free_outside ready.laid word outside
        refine ⟨lost, next, ⟨fun none => ⟨none, ?_⟩, fun both => both.1⟩⟩
        rintro _ ⟨⟩ atTop
        exact unmanaged (inTop_pageOf ready word atTop).1

end PmmRun.Loses

theorem pmm_initial_loses (ready : MemoryReady ents mem) :
    PmmRun.Loses ents { pmm := pmmInit ents mem, out := ∅ } ∅ where
  owned := (Finset.union_empty (∅ : Finset Nat)).symm ▸ Owned.init ready.laid ready.clear
  apart _ isLost := absurd isLost (Finset.notMem_empty _)
  top _ isLost := absurd isLost (Finset.notMem_empty _)

theorem pmm_reachable_loses (ready : MemoryReady ents mem) (reached : (pmmSystem ents mem).Reachable run) :
    ∃ lost, run.Loses ents lost := by
  refine reached.invariant (fun run => ∃ lost, run.Loses ents lost) ?_ ?_
  · rintro run rfl
    exact ⟨∅, pmm_initial_loses ready⟩
  · intro before call after _ owned taken
    obtain ⟨lost, loses⟩ := owned
    obtain ⟨left, next, _⟩ := loses.step ready taken
    exact ⟨left, next⟩

theorem pmm_run_loses (ready : MemoryReady ents mem) {first last : PmmRun} {calls : List PmmCall}
    (ran : (pmmSystem ents mem).Run first calls last) {lost : Finset Nat} (loses : first.Loses ents lost) :
    ∃ left, last.Loses ents left ∧
      (left = ∅ ↔ lost = ∅ ∧ ∀ addr, .free addr ∈ calls → ¬InTop ents addr.toNat) := by
  induction ran generalizing lost with
  | nil => exact ⟨lost, loses, by simp⟩
  | @cons _ _ _ call _ taken _ ih =>
      obtain ⟨between, next, one⟩ := loses.step ready taken
      obtain ⟨left, ends, others⟩ := ih next
      refine ⟨left, ends, others.trans ?_⟩
      rw [one, and_assoc, and_congr_right_iff]
      intro _
      simp only [List.mem_cons, or_imp, forall_and, eq_comm]

/-- No page is owned twice: the stack and the handed-out pages are disjoint, both are
marked in the bitmaps, and `pmm_alloc` hands out a frame that nobody holds. -/
theorem pmm_page_ownership (ready : MemoryReady ents mem) (reached : (pmmSystem ents mem).Reachable run) :
    (run.pmm.pageStk.Nodup ∧ (∀ page ∈ run.pmm.pageStk, page ∉ run.out) ∧
      run.pmm.pageStk.length ≤ pageStkCap ∧
      ∀ page, page ∈ run.pmm.pageStk ∨ page ∈ run.out → BitSet ents run.pmm.mem page) ∧
    ((pmmAlloc run.pmm).1 ≠ physAddrNull →
      (pmmAlloc run.pmm).1 % pageSize = 0 ∧ (∃ ent ∈ ents, ent.InFrames (pmmAlloc run.pmm).1) ∧
        (pmmAlloc run.pmm).1 ∉ run.out) := by
  have laid := ready.laid
  obtain ⟨lost, loses⟩ := pmm_reachable_loses ready reached
  have owned := loses.owned
  have apart := fun page stacked isOut => owned.apart page stacked (Finset.mem_union_left _ isOut)
  refine ⟨⟨owned.nodup, apart, owned.capped, fun page owner => ?_⟩, fun notNull => ?_⟩
  · have owner := owner.imp_right fun isOut => Finset.mem_union_left lost isOut
    obtain ⟨bm, member, index, bound, rfl⟩ := owned.managed page owner
    obtain ⟨ent, inEnts, rfl⟩ := List.mem_map.mp member
    exact ⟨ent, inEnts, index, bound, rfl, (owned.bits _ member index bound).mpr owner⟩
  · rcases owned.alloc laid with ⟨bm, member, index, bound, same, fresh, _⟩ | ⟨null, _⟩
    · obtain ⟨ent, inEnts, rfl⟩ := List.mem_map.mp member
      have placed := laid.placed _ member
      rw [same]
      exact ⟨placed.frame_aligned bound, ⟨ent, inEnts, frame_inFrames placed bound⟩,
        fun isOut => fresh (Finset.mem_union_left _ isOut)⟩
    · exact absurd null notNull

theorem smallMemory_ready : MemoryReady [{ base := 0x100000, size := 0x10000 }] (fun _ => 0#8) where
  usable := by
    intro ent member
    rw [List.mem_singleton] at member
    subst member
    exact ⟨by decide, by decide, by decide⟩
  disjoint := List.pairwise_singleton _ _
  bitmapZero := fun _ _ _ _ => rfl

theorem pmm_page_ownership_smallMemory :
    (pmmInit [{ base := 0x100000, size := 0x10000 }] (fun _ => 0#8)).pageStk.Nodup ∧
      (pmmInit [{ base := 0x100000, size := 0x10000 }] (fun _ => 0#8)).pageStk.length ≤ pageStkCap :=
  have invariant := (pmm_page_ownership smallMemory_ready (.initial rfl)).1
  ⟨invariant.1, invariant.2.2.1⟩

theorem pmm_pool (laid : Laid (ents.map pageBm)) :
    PoolSpec pmmTake (managedPages ents) (Owned (ents.map pageBm)) where
  taken := by
    intro pmm out page owned taken
    rcases owned.alloc laid with ⟨bm, member, index, bound, same, notOut, next⟩ | ⟨null, _⟩
    · have notNull : (pmmAlloc pmm).1 ≠ physAddrNull := same ▸ (laid.placed bm member).frame_ne_null bound
      simp only [pmmTake, if_neg notNull, Option.some.injEq] at taken ⊢
      rw [← taken, same]
      exact ⟨mem_managedPages.mpr ⟨bm, member, index, bound, rfl⟩, notOut, next⟩
    · simp [pmmTake, null] at taken
  empty := by
    intro pmm out owned stop page managed
    obtain ⟨bm, member, index, bound, rfl⟩ := mem_managedPages.mp managed
    rcases owned.alloc laid with ⟨home, homeMember, homeIndex, homeBound, same, _⟩ | ⟨_, exhausted, _⟩
    · have notNull := (laid.placed home homeMember).frame_ne_null homeBound
      simp [pmmTake, same, notNull] at stop
    · exact exhausted bm member index bound

/-- No frame is lost: allocating until the first null answer returns every managed page that
is not handed out, once each, and the answer is null only when all are. -/
structure NoFrameLost (ents : List MemlEnt) (run : PmmRun) : Prop where
  drains : ∃ pages, Drains pmmTake run.pmm pages ∧ pages.Nodup ∧
    ∀ page, page ∈ pages ↔ page ∈ managedPages ents ∧ page ∉ run.out
  exhausted : (pmmAlloc run.pmm).1 = physAddrNull → ∀ page ∈ managedPages ents, page ∈ run.out

theorem noFrameLost_iff (ready : MemoryReady ents mem) {lost : Finset Nat} (loses : run.Loses ents lost) :
    NoFrameLost ents run ↔ lost = ∅ := by
  have pool := pmm_pool ready.laid
  obtain ⟨pages, drained, nodup, exactly⟩ := pool.drains loses.owned
  constructor
  · intro kept
    obtain ⟨others, again, _, every⟩ := kept.drains
    refine Finset.eq_empty_of_forall_notMem fun page isLost => ?_
    have isMissing := Finset.mem_union_right run.out isLost
    have returned := (every page).mpr ⟨loses.managed (Or.inr isMissing), loses.apart page isLost⟩
    rw [← drained.unique again] at returned
    exact ((exactly page).mp returned).2 isMissing
  · rintro rfl
    simp only [Finset.union_empty] at exactly
    refine ⟨⟨pages, drained, nodup, exactly⟩, fun null page managed => ?_⟩
    have owner := pool.empty run.pmm _ loses.owned (by simp [pmmTake, null]) managed
    rwa [Finset.union_empty] at owner

/-- Whatever was allocated and freed before, no frame is lost if and only if none was given back
in an entry that ends at 2^64. -/
theorem pmm_no_frame_lost_iff (ready : MemoryReady ents mem) {first last : PmmRun} {calls : List PmmCall}
    (starts : (pmmSystem ents mem).initial first) (ran : (pmmSystem ents mem).Run first calls last) :
    NoFrameLost ents last ↔ ∀ addr, .free addr ∈ calls → ¬InTop ents addr.toNat := by
  cases starts
  obtain ⟨lost, loses, none⟩ := pmm_run_loses ready ran (pmm_initial_loses ready)
  rw [noFrameLost_iff ready loses, none]
  exact and_iff_right rfl

theorem smallMemory_run : ∃ last, (pmmSystem [{ base := 0x100000, size := 0x10000 }] fun _ => 0#8).Run
    { pmm := pmmInit [{ base := 0x100000, size := 0x10000 }] fun _ => 0#8, out := ∅ }
      [.alloc, .free 0x10f000] last := by
  have page : (pmmAlloc (pmmInit [{ base := 0x100000, size := 0x10000 }] fun _ => 0#8)).1 = 0x10f000 := by
    decide +kernel
  refine ⟨_, .cons rfl (.cons ⟨Or.inl ⟨0x10f000, ?_, by decide, by decide⟩, rfl⟩ (.nil _))⟩
  simp [page, physAddrNull]

theorem pmm_no_frame_lost_iff_smallMemory : ∃ last,
    (pmmSystem [{ base := 0x100000, size := 0x10000 }] fun _ => 0#8).Run
      { pmm := pmmInit [{ base := 0x100000, size := 0x10000 }] fun _ => 0#8, out := ∅ } [.alloc, .free 0x10f000] last ∧
      NoFrameLost [{ base := 0x100000, size := 0x10000 }] last := by
  obtain ⟨last, ran⟩ := smallMemory_run
  refine ⟨last, ran, (pmm_no_frame_lost_iff smallMemory_ready rfl ran).mpr fun addr _ top => ?_⟩
  obtain ⟨ent, member, ends, _⟩ := top
  rw [List.mem_singleton.mp member] at ends
  cases ends

/-- The last sixteen pages of the address space. -/
def topMemory : List MemlEnt := [{ base := 0xffffffffffff0000, size := 0x10000 }]

theorem topMemory_ready : MemoryReady topMemory fun _ => 0#8 where
  usable := by
    intro ent member
    rw [List.mem_singleton.mp member]
    exact ⟨by decide, by decide, by decide⟩
  disjoint := List.pairwise_singleton _ _
  bitmapZero := fun _ _ _ _ => rfl

/-- The last page is handed out first, and never again once it was freed. -/
theorem pmm_free_top_lost : ∃ last,
    (pmmSystem topMemory fun _ => 0#8).Run { pmm := pmmInit topMemory fun _ => 0#8, out := ∅ }
      [.alloc, .free 0xfffffffffffff000] last ∧
      0xfffffffffffff000 ∈ managedPages topMemory ∧ 0xfffffffffffff000 ∉ last.out ∧
      (∀ pages, Drains pmmTake last.pmm pages → 0xfffffffffffff000 ∉ pages) ∧ ¬NoFrameLost topMemory last := by
  have page : (pmmAlloc (pmmInit topMemory fun _ => 0#8)).1 = 0xfffffffffffff000 := by decide +kernel
  have held := (pmm_initial_loses topMemory_ready).alloc topMemory_ready
  have isOut : 0xfffffffffffff000 ∈ (if (pmmAlloc (pmmInit topMemory fun _ => 0#8)).1 = physAddrNull then ∅
      else insert (pmmAlloc (pmmInit topMemory fun _ => 0#8)).1 ∅ : Finset Nat) := by
    simp [page, physAddrNull]
  have ran : (pmmSystem topMemory fun _ => 0#8).Run { pmm := pmmInit topMemory fun _ => 0#8, out := ∅ }
      [.alloc, .free 0xfffffffffffff000] _ :=
    .cons rfl (.cons ⟨Or.inl ⟨0xfffffffffffff000, isOut, by decide, by decide⟩, rfl⟩ (.nil _))
  have top : InTop topMemory 0xfffffffffffff000 := ⟨_, List.mem_singleton_self _, by decide, by decide, by decide⟩
  have loses := @PmmRun.Loses.free_top topMemory _ _ 0xfffffffffffff000 _ topMemory_ready held isOut top
  rw [show pageOf 0xfffffffffffff000 = 0xfffffffffffff000 by decide] at loses
  have isLost := Finset.mem_insert_self 0xfffffffffffff000 (∅ : Finset Nat)
  obtain ⟨pages, drained, _, exactly⟩ := (pmm_pool topMemory_ready.laid).drains loses.owned
  refine ⟨_, ran, loses.managed (Or.inr (Finset.mem_union_right _ isLost)), loses.apart _ isLost,
    fun others again returned => ?_, fun kept => ?_⟩
  · rw [← drained.unique again] at returned
    exact ((exactly _).mp returned).2 (Finset.mem_union_right _ isLost)
  · exact Finset.insert_ne_empty _ _ ((noFrameLost_iff topMemory_ready loses).mp kept)

end Bwuhos
