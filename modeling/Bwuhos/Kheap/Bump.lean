import Bwuhos.Kheap.Runs
import Mathlib.Data.List.Chain

namespace Bwuhos

open Bwuhos.Data

/-! # The kernel heap as a bump allocator

`find_free` tries the place behind every block.  The block that follows a block lies exactly
there, so only the place behind the tail can be free.
-/

/-- The next strictly greater multiple of 16. -/
def nextHeader (addr : Nat) : Nat := (addr / khEntSize + 1) * khEntSize

/-- The number of pages of the heap window that hold all addresses below `addr`. -/
def pagesUpTo (addr : Nat) : Nat := (addr - khStart + (pageSize - 1)) / pageSize

namespace Kheap

/-- The first place for a header behind the tail. -/
def bump (kh : Kheap) : Nat := nextHeader (kh.blockEnd kh.khTail)

/-- The first address behind a block of `n` bytes at that place. -/
def bumpEnd (kh : Kheap) (n : Nat) : Nat := kh.bump + khEntSize + n

def missingPages (kh : Kheap) (n : Nat) : Nat := pagesUpTo (kh.bumpEnd n) - kh.khNpages

/-- The next `count` calls of `pmm_alloc` supply a page. -/
def Supplied (kh : Kheap) (count : Nat) : Prop := ∀ call < count, kh.pmm (kh.taken + call) ≠ physAddrNull

/-- The next `count` pages behind the heap. -/
def newPages (kh : Kheap) (count : Nat) : List MapCur :=
  (List.range count).map fun page =>
    { paddr := kh.pmm (kh.taken + page), vaddr := khStart + pageSize * (kh.khNpages + page), flags := vfWrite }

end Kheap

/-- Every block lies at the first place for a header behind the block before it. -/
structure BumpShape (kh : Kheap) (blocks : List Nat) : Prop where
  shape : HeapShape kh blocks
  nonempty : blocks ≠ []
  bumped : blocks.IsChain fun left right => right = nextHeader (kh.blockEnd left)

/-- What a successful call of `kheap_alloc` for `n` bytes leaves. -/
structure Bumped (before : Kheap) (blocks : List Nat) (n : Nat) (after : Kheap) : Prop where
  shape : BumpShape after (blocks ++ [before.bump])
  pages : after.khNpages = before.khNpages + before.missingPages n
  mapped : after.mapped = before.mapped ++ before.newPages (before.missingPages n)

section Places

variable {kh : Kheap} {blocks : List Nat} {fuel ent n room : Nat}

theorem candidate_eq (shape : HeapShape kh blocks) (member : ent ∈ blocks) :
    candidate kh ent = nextHeader (kh.blockEnd ent) := by
  obtain ⟨aligned, behind, near⟩ := candidate_spec shape member
  simp only [nextHeader, khEntSize]
  omega

namespace BumpShape

theorem tail_last (bump : BumpShape kh blocks) : ∃ earlier, blocks = earlier ++ [kh.khTail] :=
  List.getLast?_eq_some_iff.mp (bump.shape.last bump.nonempty)

theorem tail_member (bump : BumpShape kh blocks) : kh.khTail ∈ blocks :=
  List.mem_of_getLast? (bump.shape.last bump.nonempty)

/-- The place behind every block but the tail is taken by a block. -/
theorem successor (bump : BumpShape kh blocks) (member : ent ∈ blocks) (notTail : ent ≠ kh.khTail) :
    candidate kh ent ∈ blocks := by
  have behind := candidate_eq bump.shape member
  obtain ⟨before, rest, rfl⟩ := List.append_of_mem member
  cases rest with
  | nil =>
      have last := bump.shape.last bump.nonempty
      rw [List.getLast?_concat] at last
      exact absurd (Option.some.inj last) notTail
  | cons right rest =>
      have follows := (List.isChain_append_cons_cons.mp bump.bumped).2.1
      rw [behind, ← follows]
      simp

/-- No block reaches beyond the place behind the tail. -/
theorem end_before_bump (bump : BumpShape kh blocks) (member : ent ∈ blocks) : kh.blockEnd ent < kh.bump := by
  have ordered : blocks.IsChain fun left right => kh.blockEnd left < right :=
    bump.bumped.imp fun left right follows => by
      simp only [nextHeader, khEntSize] at follows
      omega
  have transitive : IsTrans Nat fun left right => kh.blockEnd left < right :=
    ⟨fun left middle right first second => by
      simp only [Kheap.blockEnd] at first second ⊢
      omega⟩
  have tailEnd : kh.blockEnd kh.khTail < kh.bump := by
    simp only [Kheap.bump, nextHeader, khEntSize]
    omega
  obtain ⟨earlier, rfl⟩ := bump.tail_last
  have pairwise := ordered.pairwise
  rw [List.pairwise_append] at pairwise
  rcases List.mem_append.mp member with old | last
  · have below := pairwise.2.2 ent old kh.khTail (List.mem_singleton_self _)
    simp only [Kheap.blockEnd] at below tailEnd ⊢
    omega
  · rw [List.mem_singleton.mp last]
    exact tailEnd

theorem candidate_tail (bump : BumpShape kh blocks) : candidate kh kh.khTail = kh.bump :=
  candidate_eq bump.shape bump.tail_member

theorem bump_bound (bump : BumpShape kh blocks) : khStart ≤ kh.bump ∧ kh.bump ≤ khStart + 2 ^ 30 + 16 := by
  have bound := bump.shape.blockEnd_bound bump.tail_member
  have inside := (bump.shape.inside _ bump.tail_member).1
  simp only [Kheap.bump, nextHeader, khEntSize, Kheap.blockEnd] at bound inside ⊢
  omega

/-- The place behind the tail is apart from every block, so only the end of the heap counts. -/
theorem clears_tail (bump : BumpShape kh blocks) :
    (∀ other ∈ blocks, Clears kh kh.bump room other) ↔ u64 (kh.bump + room) ≤ kh.limit := by
  apply Iff.intro
  · intro clears
    exact (clears _ bump.tail_member).1
  · intro inside other member
    exact ⟨inside, Or.inl (Nat.le_of_lt (bump.end_before_bump member))⟩

/-- The place of a block is free for a request only if the end of the request wraps to a
lower address. -/
theorem clears_member (bump : BumpShape kh blocks) (member : ent ∈ blocks) :
    (∀ other ∈ blocks, Clears kh ent room other) ↔ u64 (ent + room) ≤ ent := by
  apply Iff.intro
  · intro clears
    have apart := (clears ent member).2
    simp only [Kheap.blockEnd, khEntSize] at apart
    omega
  · intro wrapped other otherMember
    have inside := (bump.shape.inside ent member).2
    refine ⟨?_, ?_⟩
    · rw [bump.shape.limit_eq]
      simp only [Kheap.blockEnd] at inside
      omega
    · by_cases same : other = ent
      · rw [same]
        exact Or.inr wrapped
      · have apart := bump.shape.apart otherMember member same
        simp only [Kheap.blockEnd] at apart ⊢
        omega

end BumpShape

theorem findFree_bump (bump : BumpShape kh blocks) (enough : blocks.length < fuel)
    (small : n ≤ khMaxNpages * pageSize) :
    findFree fuel kh n =
      some (if kh.bumpEnd n ≤ khStart + pageSize * kh.khNpages then kh.bump else 0) := by
  have room : u64 (khEntSize + n) = khEntSize + n := by
    refine u64_of_lt ?_
    simp only [khMaxNpages, pageSize, khEntSize] at small ⊢
    omega
  obtain ⟨low, high⟩ := bump.bump_bound
  have tailClears : (∀ other ∈ blocks, Clears kh kh.bump (u64 (khEntSize + n)) other) ↔
      kh.bumpEnd n ≤ khStart + pageSize * kh.khNpages := by
    have word : u64 (kh.bump + (khEntSize + n)) = kh.bump + (khEntSize + n) := by
      refine u64_of_lt ?_
      simp only [khMaxNpages, pageSize, khEntSize, khStart] at small high ⊢
      omega
    rw [bump.clears_tail, room, word, bump.shape.limit_eq, Kheap.bumpEnd, Nat.add_assoc]
  have tailCandidate := bump.candidate_tail
  obtain ⟨new, answer, ⟨ent, member, clears, rfl⟩ | ⟨rfl, refused⟩⟩ := findFree_iff (n := n) bump.shape enough
  · by_cases tail : ent = kh.khTail
    · rw [tail, tailCandidate] at clears answer
      rw [answer, if_pos (tailClears.mp clears)]
    · -- the block that follows lies in the place behind `ent`, and no sum wraps
      have following := bump.successor member tail
      have inside := (bump.shape.inside _ following).2
      have pages := bump.shape.bounded
      have wrapped := (bump.clears_member following).mp clears
      rw [room] at wrapped
      simp only [u64, Kheap.blockEnd, khMaxNpages, pageSize, khEntSize, khStart] at small wrapped inside pages
      omega
  · have tailRefused := refused _ bump.tail_member
    rw [tailCandidate, tailClears] at tailRefused
    rw [answer, if_neg tailRefused]

end Places

section Calls

variable {kh after : Kheap} {blocks : List Nat} {fuel count n paddr : Nat}

theorem BumpShape.append (bump : BumpShape kh blocks) (fits : Fits kh blocks n kh.bump) :
    BumpShape (appendBlock kh kh.bump n) (blocks ++ [kh.bump]) where
  shape := bump.shape.append fits
  nonempty := by simp
  bumped := by
    obtain ⟨_, _, _, _, sizes⟩ := appendBlock_words bump.shape fits
    have ends : ∀ ent ∈ blocks, (appendBlock kh kh.bump n).blockEnd ent = kh.blockEnd ent := fun ent member =>
      congrArg (ent + khEntSize + ·) (sizes ent member)
    rw [List.isChain_append]
    refine ⟨?_, List.isChain_singleton _, ?_⟩
    · refine bump.bumped.imp_of_mem_imp fun left right leftMember _ follows => ?_
      rw [ends left leftMember]
      exact follows
    · intro last isLast new isNew
      obtain rfl := Option.some.inj ((bump.shape.last bump.nonempty).symm.trans isLast)
      obtain rfl := Option.some.inj isNew
      rw [ends _ bump.tail_member]
      rfl

theorem BumpShape.pmmAlloc (bump : BumpShape kh blocks) : BumpShape kh.pmmAlloc.2 blocks :=
  ⟨bump.shape.pmmAlloc, bump.nonempty, bump.bumped⟩

theorem BumpShape.grow (bump : BumpShape kh blocks) (room : kh.khNpages < khMaxNpages)
    (page : paddr ≠ physAddrNull) :
    BumpShape { kh.pmmAlloc.2.vmmMapCur paddr kh.limit vfWrite with khNpages := kh.khNpages + 1 } blocks :=
  ⟨bump.shape.grow room page, bump.nonempty, bump.bumped⟩

theorem BumpShape.fits (bump : BumpShape kh blocks) (inside : kh.bumpEnd n ≤ khStart + pageSize * kh.khNpages) :
    Fits kh blocks n kh.bump where
  nonempty := bump.nonempty
  aligned := by simp only [Kheap.bump, nextHeader, khEntSize, Nat.mul_mod_left]
  inside := ⟨bump.bump_bound.1, inside⟩
  apart := fun _ member => Or.inl (Nat.le_of_lt (bump.end_before_bump member))

theorem pagesUpTo_le {addr : Nat} : pagesUpTo addr ≤ count ↔ addr ≤ khStart + pageSize * count := by
  simp only [pagesUpTo, pageSize]
  omega

/-- The heap after one turn of the growth loop that got a page. -/
def Kheap.growOne (kh : Kheap) : Kheap :=
  { kh.pmmAlloc.2.vmmMapCur kh.pmmAlloc.1 kh.limit vfWrite with khNpages := kh.khNpages + 1 }

theorem kheapGrow_found {new : Nat} (page : kh.pmmAlloc.1 ≠ physAddrNull)
    (search : findFree fuel kh.growOne n = some new) (notNull : new ≠ 0) :
    kheapGrow fuel n (count + 1) kh = some (new + khEntSize, appendBlock kh.growOne new n) := by
  obtain ⟨place, rfl⟩ := Nat.exists_eq_succ_of_ne_zero notNull
  simp only [Kheap.growOne] at search
  simp only [kheapGrow, if_neg page, search]
  rfl

theorem kheapGrow_next (page : kh.pmmAlloc.1 ≠ physAddrNull) (search : findFree fuel kh.growOne n = some 0) :
    kheapGrow fuel n (count + 1) kh = kheapGrow fuel n count kh.growOne := by
  simp only [Kheap.growOne] at search
  simp only [kheapGrow, if_neg page, search]
  rfl

theorem kheapAlloc_found {new : Nat} (search : findFree fuel kh n = some new) (notNull : new ≠ 0) :
    kheapAlloc fuel kh n = some (new + khEntSize, appendBlock kh new n) := by
  obtain ⟨place, rfl⟩ := Nat.exists_eq_succ_of_ne_zero notNull
  simp only [kheapAlloc, search]

theorem kheapAlloc_grows (search : findFree fuel kh n = some 0) :
    kheapAlloc fuel kh n = kheapGrow fuel n (khMaxNpages - kh.khNpages) kh := by
  simp only [kheapAlloc, search]

theorem Kheap.supplied_succ :
    kh.Supplied (count + 1) ↔ kh.pmmAlloc.1 ≠ physAddrNull ∧ kh.growOne.Supplied count := by
  apply Iff.intro
  · intro supplied
    refine ⟨supplied 0 (Nat.succ_pos _), fun call bound => ?_⟩
    have next := supplied (call + 1) (Nat.succ_lt_succ bound)
    rwa [Nat.add_comm call, ← Nat.add_assoc] at next
  · intro ⟨first, later⟩ call bound
    cases call with
    | zero => exact first
    | succ call =>
        have next := later call (Nat.lt_of_succ_lt_succ bound)
        rwa [Nat.add_comm call, ← Nat.add_assoc]

theorem Kheap.newPages_succ (shape : HeapShape kh blocks) :
    kh.newPages (count + 1) =
      { paddr := kh.pmmAlloc.1, vaddr := kh.limit, flags := vfWrite } :: kh.growOne.newPages count := by
  rw [Kheap.newPages, List.range_succ_eq_map, List.map_cons, List.map_map, shape.limit_eq]
  refine congrArg (List.cons _) (List.map_congr_left fun page _ => ?_)
  simp only [Function.comp_apply, Kheap.growOne, Kheap.vmmMapCur, Kheap.pmmAlloc, Nat.succ_eq_add_one,
    Nat.add_assoc, Nat.add_comm 1]

/-- No page is missing exactly when the block ends inside the mapped part of the heap. -/
theorem missingPages_zero_iff :
    kh.missingPages n = 0 ↔ kh.bumpEnd n ≤ khStart + pageSize * kh.khNpages := by
  rw [← pagesUpTo_le, Kheap.missingPages]
  omega

theorem missingPages_growOne : kh.growOne.missingPages n = kh.missingPages n - 1 := by
  change pagesUpTo (kh.bumpEnd n) - (kh.khNpages + 1) = pagesUpTo (kh.bumpEnd n) - kh.khNpages - 1
  exact Nat.sub_add_eq _ _ _

/-- Where no page is missing, the block is appended as it is. -/
theorem Bumped.of_fits (bump : BumpShape kh blocks) (inside : kh.bumpEnd n ≤ khStart + pageSize * kh.khNpages) :
    Bumped kh blocks n (appendBlock kh kh.bump n) where
  shape := bump.append (bump.fits inside)
  pages := by
    rw [missingPages_zero_iff.mpr inside]
    rfl
  mapped := by
    rw [missingPages_zero_iff.mpr inside]
    exact (List.append_nil _).symm

/-- The page that was mapped first is one of those that the block needs. -/
theorem Bumped.of_grown {others : Nat} (shape : HeapShape kh blocks) (missing : kh.missingPages n = others + 1)
    (bumped : Bumped kh.growOne blocks n after) : Bumped kh blocks n after where
  shape := bumped.shape
  pages := by
    rw [bumped.pages, missingPages_growOne, missing]
    exact Nat.succ_add_eq_add_succ _ _
  mapped := by
    have grown : kh.growOne.mapped =
        kh.mapped ++ [{ paddr := kh.pmmAlloc.1, vaddr := kh.limit, flags := vfWrite }] := rfl
    rw [bumped.mapped, missingPages_growOne, missing, grown, Kheap.newPages_succ shape, List.append_assoc]
    rfl

/-- What `kheap_alloc` answers, and the heap it leaves, depending on whether the block can
be had. -/
structure BumpOutcome (kh : Kheap) (blocks : List Nat) (n : Nat) (granted : Prop) (ret : Nat) (after : Kheap) :
    Prop where
  block : granted → ret = kh.bump + khEntSize ∧ Bumped kh blocks n after
  refused : ¬granted → ret = 0 ∧ BumpShape after blocks

theorem BumpOutcome.granted {granted : Prop} (holds : granted) (bumped : Bumped kh blocks n after) :
    BumpOutcome kh blocks n granted (kh.bump + khEntSize) after :=
  ⟨fun _ => ⟨rfl, bumped⟩, fun refused => absurd holds refused⟩

theorem BumpOutcome.failed {granted : Prop} (fails : ¬granted) (bump : BumpShape after blocks) :
    BumpOutcome kh blocks n granted 0 after :=
  ⟨fun holds => absurd holds fails, fun _ => ⟨rfl, bump⟩⟩

theorem kheapGrow_bump (bump : BumpShape kh blocks) (enough : blocks.length < fuel)
    (small : n ≤ khMaxNpages * pageSize) (room : kh.khNpages + count ≤ khMaxNpages)
    (short : ¬kh.bumpEnd n ≤ khStart + pageSize * kh.khNpages) :
    ∃ ret after, kheapGrow fuel n count kh = some (ret, after) ∧
      BumpOutcome kh blocks n (kh.missingPages n ≤ count ∧ kh.Supplied (kh.missingPages n)) ret after := by
  induction count generalizing kh with
  | zero =>
      have someMissing := mt missingPages_zero_iff.mp short
      exact ⟨0, kh, rfl, .failed (fun granted => someMissing (Nat.le_zero.mp granted.1)) bump⟩
  | succ count ih =>
      obtain ⟨others, missing⟩ := Nat.exists_eq_succ_of_ne_zero (mt missingPages_zero_iff.mp short)
      rw [missing, Kheap.supplied_succ]
      by_cases null : kh.pmmAlloc.1 = physAddrNull
      · refine ⟨0, kh.pmmAlloc.2, by rw [kheapGrow, if_pos null], ?_⟩
        exact .failed (fun granted => granted.2.1 null) bump.pmmAlloc
      · have grown : BumpShape kh.growOne blocks := bump.grow (by omega) null
        have search := findFree_bump grown enough small
        have oneMore : kh.growOne.missingPages n = others := by
          rw [missingPages_growOne, missing]
          rfl
        by_cases inside : kh.growOne.bumpEnd n ≤ khStart + pageSize * kh.growOne.khNpages
        · -- the new page is enough
          have noneMissing : others = 0 := oneMore.symm.trans (missingPages_zero_iff.mpr inside)
          rw [if_pos inside] at search
          refine ⟨_, _, kheapGrow_found null search (grown.fits inside).notNull, .granted ?_ ?_⟩
          · rw [noneMissing]
            exact ⟨Nat.succ_le_succ (Nat.zero_le _), null, fun call bound => absurd bound (Nat.not_lt_zero _)⟩
          · exact (Bumped.of_fits grown inside).of_grown bump.shape missing
        · have roomLeft : kh.growOne.khNpages + count ≤ khMaxNpages := by
            change kh.khNpages + 1 + count ≤ khMaxNpages
            omega
          rw [if_neg inside] at search
          obtain ⟨ret, after, answer, outcome⟩ := ih grown roomLeft inside
          rw [oneMore] at outcome
          refine ⟨ret, after, (kheapGrow_next null search).trans answer, fun granted => ?_, fun refused => ?_⟩
          · obtain ⟨isBlock, left⟩ := outcome.block ⟨Nat.le_of_succ_le_succ granted.1, granted.2.2⟩
            exact ⟨isBlock, left.of_grown bump.shape missing⟩
          · exact outcome.refused fun granted => refused ⟨Nat.succ_le_succ granted.1, null, granted.2⟩

/-- A call of `kheap_alloc` gets the block behind the tail if the window has room for it
and the pages that are missing are supplied. -/
theorem kheapAlloc_bump (bump : BumpShape kh blocks) (enough : blocks.length < fuel)
    (small : n ≤ khMaxNpages * pageSize) :
    ∃ ret after, kheapAlloc fuel kh n = some (ret, after) ∧
      BumpOutcome kh blocks n
        (kh.bumpEnd n ≤ khStart + pageSize * khMaxNpages ∧ kh.Supplied (kh.missingPages n)) ret after := by
  have bounded := bump.shape.bounded
  have search := findFree_bump bump enough small
  have window : kh.missingPages n ≤ khMaxNpages - kh.khNpages ↔
      kh.bumpEnd n ≤ khStart + pageSize * khMaxNpages := by
    rw [← pagesUpTo_le, Kheap.missingPages]
    omega
  rw [← window]
  by_cases inside : kh.bumpEnd n ≤ khStart + pageSize * kh.khNpages
  · rw [if_pos inside] at search
    refine ⟨_, _, kheapAlloc_found search (bump.fits inside).notNull, .granted ?_ (.of_fits bump inside)⟩
    rw [missingPages_zero_iff.mpr inside]
    exact ⟨Nat.zero_le _, fun call bound => absurd bound (Nat.not_lt_zero _)⟩
  · rw [if_neg inside] at search
    rw [kheapAlloc_grows search]
    exact kheapGrow_bump bump enough small (by omega) inside

end Calls

section Runs

variable {mem pmm : Nat → Nat} {kh after : Kheap} {blocks : List Nat} {fuel n ret : Nat}

theorem kheapInit_bump (initialised : (kheapInit (kheapStart mem pmm)).1 = 0) :
    BumpShape (kheapInit (kheapStart mem pmm)).2 [khStart] := by
  by_cases null : (kheapStart mem pmm).pmmAlloc.1 = physAddrNull
  · rw [kheapInit, if_pos null] at initialised
    cases initialised
  · obtain ⟨blocks, shape⟩ := @kheapInit_shape mem pmm
    have head : (kheapInit (kheapStart mem pmm)).2.khHead = khStart := by rw [kheapInit, if_neg null]; rfl
    have next : (kheapInit (kheapStart mem pmm)).2.next khStart = 0 := by
      rw [kheapInit, if_neg null]
      simp [Kheap.next, Kheap.writeEnt]
    have only : blocks = [khStart] := by
      have chain := shape.chain
      rw [head] at chain
      cases blocks with
      | nil => exact absurd (show khStart = 0 from chain) (by decide)
      | cons first rest =>
          obtain ⟨rfl, _, links⟩ := chain
          rw [next] at links
          cases rest with
          | nil => rfl
          | cons second rest => exact absurd links.1.symm links.2.1
    subst only
    exact ⟨shape, by simp, List.isChain_singleton _⟩

theorem BumpShape.after_alloc (bump : BumpShape kh blocks) (small : n ≤ khMaxNpages * pageSize)
    (answer : kheapAlloc fuel kh n = some (ret, after)) : ∃ blocks, BumpShape after blocks := by
  obtain ⟨_, _, full, outcome⟩ := kheapAlloc_bump bump (Nat.lt_succ_self _) small
  obtain ⟨-, rfl⟩ := Prod.mk.inj (kheapAlloc_agree answer full)
  by_cases granted : kh.bumpEnd n ≤ khStart + pageSize * khMaxNpages ∧ kh.Supplied (kh.missingPages n)
  · exact ⟨_, (outcome.block granted).2.shape⟩
  · exact ⟨_, (outcome.refused granted).2⟩

theorem kheap_reachable_bump (initialised : (kheapInit (kheapStart mem pmm)).1 = 0)
    (reached : (kheapSystem mem pmm).Reachable kh) : ∃ blocks, BumpShape kh blocks := by
  apply reached.invariant (fun kh => ∃ blocks, BumpShape kh blocks)
  · intro kh starts
    rw [starts]
    exact ⟨_, kheapInit_bump initialised⟩
  · intro before n after _ ⟨blocks, bump⟩ ⟨small, fuel, ret, answer⟩
    exact bump.after_alloc small answer

/-- In every reachable heap `find_free` and `kheap_alloc` find the place behind the tail and
no other, and `kheap_alloc` maps the pages that the new block needs and no more. -/
theorem kheap_bumps_tail (mem pmm : Nat → Nat) (initialised : (kheapInit (kheapStart mem pmm)).1 = 0)
    (reached : (kheapSystem mem pmm).Reachable kh) (n : Nat) (small : n ≤ khMaxNpages * pageSize) :
    ∃ enough, ∀ fuel ≥ enough,
      findFree fuel kh n =
          some (if kh.bumpEnd n ≤ khStart + pageSize * kh.khNpages then kh.bump else 0) ∧
        ∃ ret after, kheapAlloc fuel kh n = some (ret, after) ∧
          (kh.bumpEnd n ≤ khStart + pageSize * khMaxNpages ∧ kh.Supplied (kh.missingPages n) →
            ret = kh.bump + khEntSize ∧ after.khNpages = kh.khNpages + kh.missingPages n ∧
              after.mapped = kh.mapped ++ kh.newPages (kh.missingPages n)) ∧
          (¬(kh.bumpEnd n ≤ khStart + pageSize * khMaxNpages ∧ kh.Supplied (kh.missingPages n)) → ret = 0) := by
  obtain ⟨blocks, bump⟩ := kheap_reachable_bump initialised reached
  refine ⟨blocks.length + 1, fun fuel enough => ⟨findFree_bump bump enough small, ?_⟩⟩
  obtain ⟨ret, after, answer, outcome⟩ := kheapAlloc_bump bump enough small
  refine ⟨ret, after, answer, fun granted => ?_, fun refused => (outcome.refused refused).1⟩
  obtain ⟨isBlock, left⟩ := outcome.block granted
  exact ⟨isBlock, left.pages, left.mapped⟩

theorem kheap_bumps_tail_firstPages :
    ∃ enough, ∀ fuel ≥ enough,
      findFree fuel (kheapInit (kheapStart (fun _ => 7) fun call => 4096 * (call + 1))).2 5000 = some 0 ∧
        ∃ ret after, kheapAlloc fuel (kheapInit (kheapStart (fun _ => 7) fun call => 4096 * (call + 1))).2 5000 =
            some (ret, after) ∧ ret = khStart + 48 ∧ after.khNpages = 2 := by
  obtain ⟨enough, calls⟩ := kheap_bumps_tail (fun _ => 7) (fun call => 4096 * (call + 1)) (by decide)
    (.initial rfl) 5000 (by decide)
  have place : (kheapInit (kheapStart (fun _ => 7) fun call => 4096 * (call + 1))).2.bump = khStart + 32 := by
    decide +kernel
  have missing : (kheapInit (kheapStart (fun _ => 7) fun call => 4096 * (call + 1))).2.missingPages 5000 = 1 := by
    decide +kernel
  refine ⟨enough, fun fuel isEnough => ?_⟩
  obtain ⟨search, ret, after, answer, granted, _⟩ := calls fuel isEnough
  simp only [Kheap.bumpEnd, place, missing] at search granted
  obtain ⟨isBlock, pages, _⟩ := granted ⟨by decide, fun call _ => Nat.succ_ne_zero _⟩
  exact ⟨search.trans (congrArg some (if_neg (by decide +kernel))), ret, after, answer, isBlock, pages⟩

end Runs

end Bwuhos
