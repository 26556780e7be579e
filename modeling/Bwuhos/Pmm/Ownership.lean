import Bwuhos.Pmm.Refill
import Mathlib.Data.Finset.Basic

namespace Bwuhos

open Bwuhos.Data

/-! # Ownership of page frames

Who owns a frame is spread over the bitmaps, the hints and the page stack.  `Owned`
joins them: a bit is set exactly when its frame is on the stack or handed out.
-/

structure Owned (regions : List Bitmap) (pmm : Pmm) (out : Finset Nat) : Prop where
  geometry : pmm.pageBms.map Bitmap.reset = regions
  hints : ∀ bm ∈ pmm.pageBms, bm.HintSound pmm.mem
  bits : ∀ bm ∈ regions, ∀ index < bm.npage,
    (bm.taken pmm.mem index = true ↔ bm.frame index ∈ pmm.pageStk ∨ bm.frame index ∈ out)
  managed : ∀ page, page ∈ pmm.pageStk ∨ page ∈ out → ∃ bm ∈ regions, ∃ index < bm.npage, page = bm.frame index
  nodup : pmm.pageStk.Nodup
  apart : ∀ page ∈ pmm.pageStk, page ∉ out
  capped : pmm.pageStk.length ≤ pageStkCap

/-- The frames whose bits are set in the memory that `pmm_init` finds. -/
def staleFrames (ents : List MemlEnt) (mem : ByteMemory) : Finset Nat :=
  (ents.flatMap fun ent =>
    ((List.range (pageBm ent).npage).filter ((pageBm ent).taken mem)).map (pageBm ent).frame).toFinset

theorem mem_staleFrames {ents : List MemlEnt} {mem : ByteMemory} {page : Nat} : page ∈ staleFrames ents mem ↔
    ∃ bm ∈ ents.map pageBm, ∃ index < bm.npage, bm.taken mem index = true ∧ page = bm.frame index := by
  rw [staleFrames, List.mem_toFinset, List.mem_flatMap]
  constructor
  · rintro ⟨ent, inEnts, inRegion⟩
    obtain ⟨index, member, same⟩ := List.mem_map.mp inRegion
    obtain ⟨bound, set⟩ := List.mem_filter.mp member
    exact ⟨pageBm ent, List.mem_map_of_mem inEnts, index, List.mem_range.mp bound, set, same.symm⟩
  · rintro ⟨bm, member, index, bound, set, same⟩
    obtain ⟨ent, inEnts, rfl⟩ := List.mem_map.mp member
    exact ⟨ent, inEnts, List.mem_map.mpr ⟨index, List.mem_filter.mpr ⟨List.mem_range.mpr bound, set⟩, same.symm⟩⟩

namespace Owned

variable {regions : List Bitmap} {pmm : Pmm} {out : Finset Nat}

theorem member (owned : Owned regions pmm out) {bm : Bitmap} (inList : bm ∈ pmm.pageBms) :
    bm.reset ∈ regions := owned.geometry ▸ List.mem_map_of_mem inList

theorem clear_iff (owned : Owned regions pmm out) {bm : Bitmap} (inRegions : bm ∈ regions) {index : Nat}
    (bound : index < bm.npage) :
    bm.taken pmm.mem index = false ↔ bm.frame index ∉ pmm.pageStk ∧ bm.frame index ∉ out := by
  rw [← Bool.not_eq_true, owned.bits bm inRegions index bound, not_or]

theorem feed (laid : Laid regions) (owned : Owned regions pmm out) :
    Owned regions (bmFeedStk pmm) out ∧ ((bmFeedStk pmm).pageStk = [] →
      ∀ bm ∈ regions, ∀ index < bm.npage, bm.frame index ∈ out) := by
  obtain ⟨pushed, all⟩ := bmFeedRegions_spec laid pmm.pageBms pmm.mem pmm.pageStk
    (fun bm inList => owned.member inList) owned.hints owned.capped
  unfold bmFeedStk
  generalize bmFeedRegions pmm.pageBms pmm.mem pmm.pageStk = fed at all
  dsimp only
  have bits : ∀ bm ∈ regions, ∀ index < bm.npage,
      (bm.taken fed.2.1 index = true ↔ bm.frame index ∈ fed.2.2 ∨ bm.frame index ∈ out) := by
    intro bm inRegions index bound
    rw [all.fed.bits bm inRegions index bound, owned.bits bm inRegions index bound, all.stack,
      List.mem_append]
    tauto
  have freshOutside : ∀ page ∈ pushed, page ∉ pmm.pageStk ∧ page ∉ out := by
    intro page inPushed
    obtain ⟨bm, inRegions, index, bound, rfl, clear⟩ := all.fed.fresh page inPushed
    exact (owned.clear_iff inRegions bound).mp clear
  refine ⟨⟨all.geometry.trans owned.geometry, all.hints, bits, ?_, ?_, ?_, all.capped⟩, ?_⟩
  · intro page owner
    rw [all.stack, List.mem_append, or_assoc] at owner
    rcases owner with inPushed | old
    · obtain ⟨bm, inRegions, index, bound, same, _⟩ := all.fed.fresh page inPushed
      exact ⟨bm, inRegions, index, bound, same⟩
    · exact owned.managed page old
  · rw [all.stack]
    exact List.Nodup.append all.fed.nodup owned.nodup fun page inPushed => (freshOutside page inPushed).1
  · intro page onStack
    rw [all.stack] at onStack
    exact (List.mem_append.mp onStack).elim (fun inPushed => (freshOutside page inPushed).2)
      (owned.apart page)
  · intro empty bm inRegions index bound
    rw [← owned.geometry] at inRegions
    obtain ⟨old, inList, rfl⟩ := List.mem_map.mp inRegions
    have full := all.exhausted (by rw [empty]; decide) old inList index bound
    have owner := (bits old.reset (owned.member inList) index bound).mp full
    simpa [empty] using owner

/-- The frames whose bits are already set in memory keep them: nobody will ever get these
frames, as if somebody held them. -/
theorem initStale {ents : List MemlEnt} {mem : ByteMemory} (laid : Laid (ents.map pageBm)) :
    Owned (ents.map pageBm) (pmmInit ents mem) (staleFrames ents mem) := by
  have start : Owned (ents.map pageBm) { mem, pageBms := ents.map pageBm, pageStk := [] } (staleFrames ents mem) := by
    refine ⟨?_, ?_, ?_, ?_, .nil, by simp, Nat.zero_le _⟩
    · rw [List.map_map]
      exact List.map_congr_left fun _ _ => rfl
    · intro bm inList index below
      obtain ⟨ent, _, rfl⟩ := List.mem_map.mp inList
      exact absurd below (Nat.not_lt_zero _)
    · intro bm inRegions index bound
      rw [mem_staleFrames]
      constructor
      · exact fun set => Or.inr ⟨bm, inRegions, index, bound, set, rfl⟩
      · rintro (onStack | ⟨other, member, position, within, set, same⟩)
        · cases onStack
        · obtain ⟨rfl, rfl⟩ := laid.frame_inj inRegions member bound within same
          exact set
    · rintro page (onStack | stale)
      · cases onStack
      · obtain ⟨bm, member, index, bound, _, same⟩ := mem_staleFrames.mp stale
        exact ⟨bm, member, index, bound, same⟩
  exact (feed laid start).1

theorem init {ents : List MemlEnt} {mem : ByteMemory} (laid : Laid (ents.map pageBm))
    (zero : ∀ bm ∈ ents.map pageBm, ∀ index < bm.npage, bm.taken mem index = false) :
    Owned (ents.map pageBm) (pmmInit ents mem) ∅ := by
  have none : staleFrames ents mem = ∅ := by
    refine Finset.eq_empty_of_forall_notMem fun page stale => ?_
    obtain ⟨bm, member, index, bound, set, _⟩ := mem_staleFrames.mp stale
    simp [zero bm member index bound] at set
  exact none ▸ initStale laid

theorem pop (owned : Owned regions pmm out) {page : Nat} {stk : List Nat} (top : pmm.pageStk = page :: stk) :
    page ∉ out ∧ Owned regions { pmm with pageStk := stk } (insert page out) := by
  have nodup := owned.nodup
  have capped := owned.capped
  rw [top] at nodup capped
  have onStack : page ∈ pmm.pageStk := by rw [top]; exact List.mem_cons_self
  have owners : ∀ other, other ∈ stk ∨ other ∈ insert page out ↔ other ∈ pmm.pageStk ∨ other ∈ out := by
    intro other
    rw [top, Finset.mem_insert, List.mem_cons]
    tauto
  refine ⟨owned.apart page onStack, owned.geometry, owned.hints, ?_, ?_, (List.nodup_cons.mp nodup).2, ?_, ?_⟩
  · exact fun bm inRegions index bound => (owned.bits bm inRegions index bound).trans (owners _).symm
  · exact fun other owner => owned.managed other ((owners other).mp owner)
  · intro other inRest
    rw [Finset.mem_insert, not_or]
    refine ⟨fun same => (List.nodup_cons.mp nodup).1 (same ▸ inRest), owned.apart other ?_⟩
    rw [top]
    exact List.mem_cons_of_mem _ inRest
  · exact Nat.le_of_succ_le capped

theorem alloc (laid : Laid regions) (owned : Owned regions pmm out) :
    (∃ bm ∈ regions, ∃ index < bm.npage, (pmmAlloc pmm).1 = bm.frame index ∧ bm.frame index ∉ out ∧
      Owned regions (pmmAlloc pmm).2 (insert (bm.frame index) out)) ∨
    ((pmmAlloc pmm).1 = physAddrNull ∧ (∀ bm ∈ regions, ∀ index < bm.npage, bm.frame index ∈ out) ∧
      Owned regions (pmmAlloc pmm).2 out) := by
  have ready : ∃ fed, (if pmm.pageStk.isEmpty then bmFeedStk pmm else pmm) = fed ∧ Owned regions fed out ∧
      (fed.pageStk = [] → ∀ bm ∈ regions, ∀ index < bm.npage, bm.frame index ∈ out) := by
    by_cases empty : pmm.pageStk.isEmpty = true
    · exact ⟨_, if_pos empty, feed laid owned⟩
    · exact ⟨_, if_neg empty, owned, fun none => absurd (List.isEmpty_iff.mpr none) empty⟩
  obtain ⟨fed, same, fedOwned, exhausted⟩ := ready
  unfold pmmAlloc
  rw [same]
  dsimp only
  cases top : fed.pageStk with
  | nil => exact Or.inr ⟨rfl, exhausted top, fedOwned⟩
  | cons page stk =>
      obtain ⟨bm, inRegions, index, bound, rfl⟩ := fedOwned.managed page (Or.inl (by simp [top]))
      obtain ⟨notOut, popped⟩ := fedOwned.pop top
      exact Or.inl ⟨bm, inRegions, index, bound, rfl, notOut, popped⟩

end Owned

theorem pmmFreeHint_spec (page : Nat) {bms : List Bitmap} (laid : Laid (bms.map Bitmap.reset)) :
    (pmmFreeHint page bms).map Bitmap.reset = bms.map Bitmap.reset ∧
      ∀ bm ∈ pmmFreeHint page bms, ∃ old ∈ bms, bm.reset = old.reset ∧ bm.firstFree ≤ old.firstFree ∧
        (bm.contains page = true → bm.firstFree ≤ (page - bm.base) / pageSize) := by
  induction bms with
  | nil => exact ⟨rfl, by simp [pmmFreeHint]⟩
  | cons bm rest ih =>
      obtain ⟨apart, restApart⟩ := List.pairwise_cons.mp laid.pairwise
      obtain ⟨geometry, hints⟩ := ih ⟨fun other member => laid.placed other (List.mem_cons_of_mem _ member), restApart⟩
      unfold pmmFreeHint
      by_cases found : bm.contains page = true
      · rw [if_pos found]
        refine ⟨rfl, fun other member => ?_⟩
        rcases List.mem_cons.mp member with same | inRest
        · subst same
          refine ⟨bm, by simp, rfl, ?_, fun _ => ?_⟩ <;> dsimp only <;> split <;> omega
        · refine ⟨other, by simp [inRest], rfl, Nat.le_refl _, fun alsoFound => ?_⟩
          have resetMember : other.reset ∈ rest.map Bitmap.reset := List.mem_map_of_mem inRest
          have missing := (apart _ resetMember).contains_false (laid.placed _ (by simp))
            (laid.placed _ (List.mem_cons_of_mem _ resetMember)) found
          simp only [Bitmap.reset_contains, alsoFound, Bool.true_eq_false] at missing
      · rw [if_neg found]
        refine ⟨by simp only [List.map_cons, geometry], fun other member => ?_⟩
        rcases List.mem_cons.mp member with same | inRest
        · exact ⟨bm, by simp, congrArg _ same, by rw [same], fun alsoFound => absurd (same ▸ alsoFound) found⟩
        · obtain ⟨old, oldMember, same, lower, below⟩ := hints other inRest
          exact ⟨old, List.mem_cons_of_mem _ oldMember, same, lower, below⟩

namespace Owned

variable {regions : List Bitmap} {pmm : Pmm} {out : Finset Nat} {addr : Nat}

/-- A page address that some region contains is a frame of that region. -/
theorem found_region {bm : Bitmap} (laid : Laid regions) (owned : Owned regions pmm out)
    (aligned : pageOf addr % 4096 = 0)
    (search : pmm.pageBms.find? (·.contains (pageOf addr)) = some bm) :
    bm ∈ pmm.pageBms ∧ (pageOf addr - bm.base) / pageSize < bm.npage ∧
      pageOf addr = bm.frame ((pageOf addr - bm.base) / pageSize) := by
  have inList := List.mem_of_find?_eq_some search
  have found : bm.contains (pageOf addr) = true :=
    List.find?_some (p := fun bm : Bitmap => bm.contains (pageOf addr)) search
  exact ⟨inList, (laid.placed _ (owned.member inList)).frame_of_contains aligned found⟩

/-- The search finds every page that is handed out, as long as no bound wraps. -/
theorem searched (laid : Laid regions) (owned : Owned regions pmm out)
    (bounded : ∀ bm ∈ regions, bm.base + 4096 * bm.npage < 2 ^ 64) {page : Nat} (handedOut : page ∈ out) :
    ∃ bm ∈ regions, bm.contains page = true := by
  obtain ⟨bm, member, index, bound, rfl⟩ := owned.managed page (Or.inr handedOut)
  exact ⟨bm, member, ((laid.placed bm member).contains_frame bound).mpr (bounded bm member)⟩

theorem find_region (owned : Owned regions pmm out) (searched : ∃ bm ∈ regions, bm.contains (pageOf addr) = true) :
    ∃ bm, pmm.pageBms.find? (·.contains (pageOf addr)) = some bm := by
  obtain ⟨home, homeMember, found⟩ := searched
  rw [← owned.geometry] at homeMember
  obtain ⟨old, inList, rfl⟩ := List.mem_map.mp homeMember
  exact Option.isSome_iff_exists.mp (List.find?_isSome.mpr ⟨old, inList, found⟩)

/-- Lowering the hints of the region of a freed page keeps every hint sound. -/
theorem free_hints {mem : ByteMemory} (laid : Laid regions) (owned : Owned regions pmm out)
    (searched : ∃ bm ∈ regions, bm.contains (pageOf addr) = true)
    (cleared : ∀ other ∈ regions, ∀ index < other.npage,
      (other.taken mem index = true ↔ other.frame index ≠ pageOf addr ∧ other.taken pmm.mem index = true))
    {other : Bitmap} (member : other ∈ pmmFreeHint (pageOf addr) pmm.pageBms) : other.HintSound mem := by
  intro index below within
  obtain ⟨_, hints⟩ := pmmFreeHint_spec (pageOf addr) (owned.geometry.symm ▸ laid)
  obtain ⟨old, oldMember, sameRegion, lower, hint⟩ := hints other member
  have inRegions : other.reset ∈ regions := sameRegion ▸ owned.member oldMember
  have oldTaken : old.taken pmm.mem index = true :=
    owned.hints old oldMember index (by omega) (by rw [← old.reset_npage, ← sameRegion]; exact within)
  refine (cleared other.reset inRegions index within).mpr ⟨fun sameFrame => ?_, ?_⟩
  · have placed := laid.placed _ inRegions
    obtain ⟨found, foundMember, contained⟩ := searched
    have home := laid.contains_home inRegions foundMember within (sameFrame ▸ contained)
    have covers : other.contains (pageOf addr) = true := (home ▸ contained : other.reset.contains _ = true)
    have position := hint covers
    rw [← sameFrame, Bitmap.reset_frame, ← other.reset_frame, placed.frame_eq within] at position
    unfold pageSize at position
    simp only [Bitmap.reset_base] at position
    omega
  · rw [sameRegion]
    exact oldTaken

theorem free (laid : Laid regions) (owned : Owned regions pmm out) (handedOut : pageOf addr ∈ out)
    (searched : ∃ bm ∈ regions, bm.contains (pageOf addr) = true) :
    Owned regions (pmmFree pmm addr) (out.erase (pageOf addr)) := by
  have notStacked : pageOf addr ∉ pmm.pageStk := fun stacked => owned.apart _ stacked handedOut
  obtain ⟨home, homeMember, homeIndex, homeBound, pageEq⟩ := owned.managed _ (Or.inr handedOut)
  have aligned : pageOf addr % 4096 = 0 := pageEq ▸ (laid.placed home homeMember).frame_aligned homeBound
  obtain ⟨bm, search⟩ := owned.find_region searched
  obtain ⟨inList, bound, same⟩ := found_region laid owned aligned search
  have cleared := fun (other : Bitmap) (member : other ∈ regions) (index : Nat) (within : index < other.npage) =>
    laid.taken_clear pmm.mem (owned.member inList) member bound within
  simp only [Bitmap.reset_data, Bitmap.reset_frame, ← same] at cleared
  unfold pmmFree
  dsimp only
  rw [search]
  obtain ⟨geometry, _⟩ := pmmFreeHint_spec (pageOf addr) (owned.geometry.symm ▸ laid)
  refine ⟨geometry.trans owned.geometry, fun other member => free_hints laid owned searched cleared member, ?_, ?_,
    owned.nodup, ?_,
    owned.capped⟩
  · intro other member index within
    rw [cleared other member index within, owned.bits other member index within, Finset.mem_erase]
    constructor
    · rintro ⟨different, stacked | isOut⟩
      · exact Or.inl stacked
      · exact Or.inr ⟨different, isOut⟩
    · rintro (stacked | ⟨different, isOut⟩)
      · exact ⟨fun equal => notStacked (equal ▸ stacked), Or.inl stacked⟩
      · exact ⟨different, Or.inr isOut⟩
  · intro page owner
    exact owned.managed page (owner.imp_right Finset.mem_of_mem_erase)
  · exact fun page stacked isOut => owned.apart page stacked (Finset.mem_of_mem_erase isOut)

/-- A page that the search finds in no region is left as it is. -/
theorem free_unsearched (owned : Owned regions pmm out) (missing : ∀ bm ∈ regions, bm.contains (pageOf addr) ≠ true) :
    pmmFree pmm addr = pmm := by
  unfold pmmFree
  dsimp only
  cases search : pmm.pageBms.find? (·.contains (pageOf addr)) with
  | none => rfl
  | some bm =>
      have found : bm.contains (pageOf addr) = true :=
        List.find?_some (p := fun bm : Bitmap => bm.contains (pageOf addr)) search
      exact absurd found (missing bm.reset (owned.member (List.mem_of_find?_eq_some search)))

end Owned

end Bwuhos
