import Bwuhos.Kheap.Bump

namespace Bwuhos

open Bwuhos.Data

/-! # Requests larger than the heap window

Only the end address of the new block is compared with the end of the heap.  For a request
near `2 ^ 64` the end wraps, and the comparison accepts it.
-/

/-- Calls of `kheap_alloc` for any number of bytes a `size_t` can hold. -/
def kheapRequests (mem pmm : Nat → Nat) : TransitionSystem Kheap Nat where
  initial kh := kh = (kheapInit (kheapStart mem pmm)).2
  step before n after := n < 2 ^ 64 ∧ ∃ fuel ret, kheapAlloc fuel before n = some (ret, after)

/-- The end of a block of `n` bytes behind the tail does not wrap; or the wrapped end lies
behind the heap, no place of an existing block seems free, and no page can be added. -/
def OversizedRefused (kh : Kheap) (n : Nat) : Prop :=
  kh.bumpEnd n < 2 ^ 64 ∨
    kh.limit < kh.bumpEnd n - 2 ^ 64 ∧
      (kh.khHead = kh.khTail ∨ kh.khTail + khEntSize + n < 2 ^ 64 ∨ 2 ^ 64 < khEntSize + n) ∧
      (kh.khNpages = khMaxNpages ∨ kh.pmm kh.taken = physAddrNull)

/-- The list of blocks is as it was. -/
structure SameBlocks (before after : Kheap) : Prop where
  mem : after.mem = before.mem
  head : after.khHead = before.khHead
  tail : after.khTail = before.khTail

section Search

variable {kh : Kheap} {blocks : List Nat} {fuel ent n : Nat}

/-- What `find_free` accepts of a request larger than the window. -/
def AdmitsOversized (kh : Kheap) (n : Nat) : Prop :=
  (2 ^ 64 ≤ kh.bumpEnd n ∧ kh.bumpEnd n - 2 ^ 64 ≤ kh.limit) ∨
    (kh.khHead ≠ kh.khTail ∧ 2 ^ 64 ≤ kh.khTail + khEntSize + n ∧ khEntSize + n ≤ 2 ^ 64)

namespace BumpShape

theorem le_tail (bump : BumpShape kh blocks) (member : ent ∈ blocks) : ent ≤ kh.khTail := by
  by_cases same : ent = kh.khTail
  · exact Nat.le_of_eq same
  · have apart := bump.shape.apart member bump.tail_member same
    have behind := bump.end_before_bump member
    simp only [Kheap.bump, nextHeader, Kheap.blockEnd, khEntSize] at apart behind
    omega

theorem head_ne_tail (bump : BumpShape kh blocks) (member : ent ∈ blocks) (notTail : ent ≠ kh.khTail) :
    kh.khHead ≠ kh.khTail := by
  have distinct := bump.shape.nodup
  have last := bump.tail_member
  have chain := bump.shape.chain
  cases blocks with
  | nil => exact absurd member List.not_mem_nil
  | cons first rest =>
      obtain ⟨head, _, _⟩ := chain
      intro same
      have restLast := bump.shape.last bump.nonempty
      cases rest with
      | nil =>
          rw [List.mem_singleton.mp member, ← head] at notTail
          exact notTail same
      | cons second rest =>
          rw [List.getLast?_cons_cons] at restLast
          have tailLater := List.mem_of_getLast? restLast
          rw [← same, head] at tailLater
          exact (List.nodup_cons.mp distinct).1 tailLater

/-- The tail lies in the place behind some block, unless it is the only one. -/
theorem before_tail (bump : BumpShape kh blocks) (several : kh.khHead ≠ kh.khTail) :
    ∃ ent ∈ blocks, candidate kh ent = kh.khTail := by
  obtain ⟨earlier, rfl⟩ := bump.tail_last
  rcases List.eq_nil_or_concat' earlier with rfl | ⟨others, last, rfl⟩
  · exact absurd bump.shape.chain.1 several
  · have member : last ∈ others ++ [last] ++ [kh.khTail] := by simp
    refine ⟨last, member, ?_⟩
    have chain := bump.bumped
    rw [List.append_assoc] at chain
    rw [candidate_eq bump.shape member]
    exact (List.isChain_append_cons_cons.mp chain).2.1.symm

theorem tail_bound (bump : BumpShape kh blocks) :
    khStart ≤ kh.khTail ∧ kh.khTail + khEntSize ≤ kh.limit ∧ kh.khTail < kh.bump ∧ kh.bump ≤ kh.limit + khEntSize ∧
      kh.limit ≤ khStart + 2 ^ 30 := by
  have inside := bump.shape.inside _ bump.tail_member
  have pages := bump.shape.bounded
  rw [bump.shape.limit_eq]
  simp only [Kheap.bump, nextHeader, Kheap.blockEnd, khEntSize, khMaxNpages, pageSize, khStart] at inside pages ⊢
  omega

end BumpShape

/-- `find_free` finds a place for an oversized request if and only if an end address wraps
to the heap or below it. -/
theorem findFree_oversized (bump : BumpShape kh blocks) (enough : blocks.length < fuel)
    (large : khMaxNpages * pageSize < n) (word : n < 2 ^ 64) :
    ∃ new, findFree fuel kh n = some new ∧ (new ≠ 0 ↔ AdmitsOversized kh n) := by
  obtain ⟨tailLow, tailHigh, tailBump, bumpHigh, limitHigh⟩ := bump.tail_bound
  have tailClears : (∀ other ∈ blocks, Clears kh kh.bump (u64 (khEntSize + n)) other) ↔
      2 ^ 64 ≤ kh.bumpEnd n ∧ kh.bumpEnd n - 2 ^ 64 ≤ kh.limit := by
    rw [bump.clears_tail]
    simp only [Kheap.bumpEnd, u64, khStart, khMaxNpages, pageSize, khEntSize] at *
    omega
  have memberClears : ∀ ent ∈ blocks, ((∀ other ∈ blocks, Clears kh ent (u64 (khEntSize + n)) other) ↔
      2 ^ 64 ≤ ent + khEntSize + n ∧ khEntSize + n ≤ 2 ^ 64) := by
    intro ent member
    have low := (bump.shape.inside ent member).1
    have high := bump.le_tail member
    rw [bump.clears_member member]
    simp only [u64, khStart, khMaxNpages, pageSize, khEntSize] at *
    omega
  obtain ⟨new, answer, ⟨ent, member, clears, rfl⟩ | ⟨rfl, refused⟩⟩ := findFree_iff (n := n) bump.shape enough
  · have found : candidate kh ent ≠ 0 := by
      have inside := (bump.shape.inside ent member).1
      have behind := (candidate_spec bump.shape member).2.1
      simp only [Kheap.blockEnd, khStart] at inside behind
      omega
    refine ⟨_, answer, fun _ => ?_, fun _ => found⟩
    by_cases tail : ent = kh.khTail
    · rw [tail, bump.candidate_tail] at clears
      exact Or.inl (tailClears.mp clears)
    · have following := bump.successor member tail
      obtain ⟨wraps, low⟩ := (memberClears _ following).mp clears
      have last := bump.le_tail following
      exact Or.inr ⟨bump.head_ne_tail member tail, by omega, low⟩
  · refine ⟨0, answer, fun found => absurd rfl found, fun admitted => ?_⟩
    obtain tail | ⟨several, wraps, low⟩ := admitted
    · have tailRefused := refused _ bump.tail_member
      rw [bump.candidate_tail] at tailRefused
      exact absurd (tailClears.mpr tail) tailRefused
    · obtain ⟨ent, member, place⟩ := bump.before_tail several
      have tailRefused := refused ent member
      rw [place] at tailRefused
      exact absurd ((memberClears _ bump.tail_member).mpr ⟨wraps, low⟩) tailRefused

end Search

section Calls

variable {kh after : Kheap} {blocks : List Nat} {fuel count n ret : Nat}

theorem SameBlocks.refl (kh : Kheap) : SameBlocks kh kh := ⟨rfl, rfl, rfl⟩

theorem not_admitsOversized (bump : BumpShape kh blocks) (straight : kh.bumpEnd n < 2 ^ 64) :
    ¬AdmitsOversized kh n := by
  obtain ⟨_, _, tailBump, _⟩ := bump.tail_bound
  simp only [AdmitsOversized, Kheap.bumpEnd] at straight ⊢
  omega

/-- Where no end address wraps, the heap grows in vain. -/
theorem kheapGrow_straight (bump : BumpShape kh blocks) (enough : blocks.length < fuel)
    (large : khMaxNpages * pageSize < n) (word : n < 2 ^ 64) (room : kh.khNpages + count ≤ khMaxNpages)
    (straight : kh.bumpEnd n < 2 ^ 64) :
    ∃ after, kheapGrow fuel n count kh = some (0, after) ∧ SameBlocks kh after ∧ BumpShape after blocks := by
  induction count generalizing kh with
  | zero => exact ⟨kh, rfl, .refl kh, bump⟩
  | succ count ih =>
      by_cases null : kh.pmmAlloc.1 = physAddrNull
      · exact ⟨kh.pmmAlloc.2, by rw [kheapGrow, if_pos null], ⟨rfl, rfl, rfl⟩, bump.pmmAlloc⟩
      · have grown : BumpShape kh.growOne blocks := bump.grow (by omega) null
        have roomLeft : kh.growOne.khNpages + count ≤ khMaxNpages := by
          change kh.khNpages + 1 + count ≤ khMaxNpages
          omega
        obtain ⟨new, search, found⟩ := findFree_oversized grown enough large word
        have none : new = 0 := not_not.mp fun some => not_admitsOversized grown straight (found.mp some)
        rw [none] at search
        rw [kheapGrow_next null search]
        obtain ⟨after, answer, same, shape⟩ := ih grown roomLeft straight
        exact ⟨after, answer, ⟨same.mem, same.head, same.tail⟩, shape⟩

/-- Where an end address wraps, one more page is always enough. -/
theorem growOne_admits (bump : BumpShape kh blocks) (room : kh.khNpages < khMaxNpages)
    (page : kh.pmmAlloc.1 ≠ physAddrNull) (word : n < 2 ^ 64) (wraps : 2 ^ 64 ≤ kh.bumpEnd n) :
    AdmitsOversized kh.growOne n := by
  have grown : BumpShape kh.growOne blocks := bump.grow room page
  have limit : kh.growOne.limit = kh.limit + pageSize := by
    rw [grown.shape.limit_eq, bump.shape.limit_eq]
    change _ + pageSize * (kh.khNpages + 1) = _
    rw [Nat.mul_succ, Nat.add_assoc]
  obtain ⟨_, _, _, bumpHigh, _⟩ := bump.tail_bound
  have below : kh.bumpEnd n - 2 ^ 64 ≤ kh.limit + pageSize := by
    simp only [Kheap.bumpEnd, khEntSize, pageSize] at bumpHigh ⊢
    omega
  rw [← limit] at below
  exact Or.inl ⟨wraps, below⟩

theorem kheapAlloc_oversized (bump : BumpShape kh blocks) (enough : blocks.length < fuel)
    (large : khMaxNpages * pageSize < n) (word : n < 2 ^ 64) :
    ∃ ret after, kheapAlloc fuel kh n = some (ret, after) ∧
      (OversizedRefused kh n → ret = 0 ∧ SameBlocks kh after ∧ BumpShape after blocks) ∧
      (¬OversizedRefused kh n → ret ≠ 0) := by
  obtain ⟨new, search, found⟩ := findFree_oversized bump enough large word
  by_cases admitted : AdmitsOversized kh n
  · refine ⟨_, _, kheapAlloc_found search (found.mpr admitted), fun refused => ?_, fun _ => by simp [khEntSize]⟩
    obtain ⟨_, _, tailBump, _⟩ := bump.tail_bound
    simp only [OversizedRefused, AdmitsOversized, Kheap.bumpEnd] at refused admitted
    omega
  · have none : new = 0 := not_not.mp fun some => admitted (found.mp some)
    rw [none] at search
    rw [kheapAlloc_grows search]
    have bounded := bump.shape.bounded
    by_cases straight : kh.bumpEnd n < 2 ^ 64
    · obtain ⟨after, answer, same, shape⟩ := kheapGrow_straight bump enough large word
        (show kh.khNpages + (khMaxNpages - kh.khNpages) ≤ khMaxNpages by omega) straight
      exact ⟨0, after, answer, fun _ => ⟨rfl, same, shape⟩, fun granted => absurd (Or.inl straight) granted⟩
    · have wraps := Nat.le_of_not_lt straight
      have behind : kh.limit < kh.bumpEnd n - 2 ^ 64 ∧
          (kh.khHead = kh.khTail ∨ kh.khTail + khEntSize + n < 2 ^ 64 ∨ 2 ^ 64 < khEntSize + n) := by
        simp only [AdmitsOversized] at admitted
        omega
      by_cases full : kh.khNpages = khMaxNpages
      · rw [full, Nat.sub_self]
        exact ⟨0, kh, rfl, fun _ => ⟨rfl, .refl kh, bump⟩,
          fun granted => absurd (Or.inr ⟨behind.1, behind.2, Or.inl full⟩) granted⟩
      · obtain ⟨count, more⟩ : ∃ count, khMaxNpages - kh.khNpages = count + 1 :=
          Nat.exists_eq_succ_of_ne_zero (by omega)
        rw [more]
        by_cases null : kh.pmmAlloc.1 = physAddrNull
        · exact ⟨0, kh.pmmAlloc.2, by rw [kheapGrow, if_pos null], fun _ => ⟨rfl, ⟨rfl, rfl, rfl⟩, bump.pmmAlloc⟩,
            fun granted => absurd (Or.inr ⟨behind.1, behind.2, Or.inr null⟩) granted⟩
        · have room : kh.khNpages < khMaxNpages := by omega
          have grown : BumpShape kh.growOne blocks := bump.grow room null
          obtain ⟨place, grownSearch, isFound⟩ := findFree_oversized grown enough large word
          have notNull := isFound.mpr (growOne_admits bump room null word wraps)
          refine ⟨_, _, kheapGrow_found null grownSearch notNull, fun refused => ?_, fun _ => by simp [khEntSize]⟩
          obtain straight' | ⟨_, _, isFull | isNull⟩ := refused
          · exact absurd straight' straight
          · exact absurd isFull full
          · exact absurd isNull null

end Calls

section Runs

variable {mem pmm : Nat → Nat} {kh : Kheap}

/-- Runs in which every request larger than the window meets the condition. -/
def refusedRequests (mem pmm : Nat → Nat) : TransitionSystem Kheap Nat :=
  (kheapRequests mem pmm).restrict fun kh n => khMaxNpages * pageSize < n → OversizedRefused kh n

theorem refusedRequests_bump (initialised : (kheapInit (kheapStart mem pmm)).1 = 0)
    (reached : (refusedRequests mem pmm).Reachable kh) : ∃ blocks, BumpShape kh blocks := by
  apply reached.invariant (fun kh => ∃ blocks, BumpShape kh blocks)
  · intro kh starts
    rw [starts]
    exact ⟨_, kheapInit_bump initialised⟩
  · intro before n after _ ⟨blocks, bump⟩ ⟨⟨word, fuel, ret, answer⟩, allowed⟩
    by_cases large : khMaxNpages * pageSize < n
    · obtain ⟨_, _, full, refused, _⟩ := kheapAlloc_oversized bump (Nat.lt_succ_self _) large word
      obtain ⟨-, rfl⟩ := Prod.mk.inj (kheapAlloc_agree answer full)
      exact ⟨blocks, (refused (allowed large)).2.2⟩
    · exact bump.after_alloc (Nat.le_of_not_lt large) answer

/-- A request larger than the window is refused, and the list of blocks left as it was, if
and only if no end address wraps to the heap. -/
theorem kheap_oversized_iff (mem pmm : Nat → Nat) (initialised : (kheapInit (kheapStart mem pmm)).1 = 0)
    (reached : (refusedRequests mem pmm).Reachable kh) (n : Nat) (large : khMaxNpages * pageSize < n)
    (word : n < 2 ^ 64) :
    ∃ enough, ∀ fuel ≥ enough, ∃ ret after, kheapAlloc fuel kh n = some (ret, after) ∧
      (ret = 0 ∧ SameBlocks kh after ↔ OversizedRefused kh n) := by
  obtain ⟨blocks, bump⟩ := refusedRequests_bump initialised reached
  refine ⟨blocks.length + 1, fun fuel enough => ?_⟩
  obtain ⟨ret, after, answer, refused, granted⟩ := kheapAlloc_oversized bump enough large word
  refine ⟨ret, after, answer, fun none => ?_, fun condition => ?_⟩
  · exact not_not.mp fun condition => granted condition none.1
  · exact ⟨(refused condition).1, (refused condition).2.1⟩

theorem kheap_oversized_iff_gigabytes :
    ∃ enough, ∀ fuel ≥ enough, ∃ ret after,
      kheapAlloc fuel (kheapInit (kheapStart (fun _ => 7) fun call => 4096 * (call + 1))).2 0x80000000 =
          some (ret, after) ∧
        ret = 0 ∧ SameBlocks (kheapInit (kheapStart (fun _ => 7) fun call => 4096 * (call + 1))).2 after := by
  obtain ⟨enough, refused⟩ := kheap_oversized_iff (fun _ => 7) (fun call => 4096 * (call + 1)) (by decide)
    (.initial rfl) 0x80000000 (by decide) (by decide)
  refine ⟨enough, fun fuel more => ?_⟩
  obtain ⟨ret, after, answer, verdict⟩ := refused fuel more
  exact ⟨ret, after, answer, verdict.mpr (.inl (by decide))⟩

/-- The first call of `kheap_alloc` asks for `SIZE_MAX` bytes and gets them. -/
theorem kheap_oversized_granted :
    (kheapRequests (fun _ => 7) fun call => 4096 * (call + 1)).Reachable
        (kheapInit (kheapStart (fun _ => 7) fun call => 4096 * (call + 1))).2 ∧
      khMaxNpages * pageSize < 2 ^ 64 - 1 ∧
      (kheapAlloc 2 (kheapInit (kheapStart (fun _ => 7) fun call => 4096 * (call + 1))).2 (2 ^ 64 - 1)).map
          (fun answer => (answer.1, answer.2.khTail, answer.2.dataSize answer.2.khTail)) =
        some (khStart + 48, khStart + 32, 2 ^ 64 - 1) :=
  ⟨.initial rfl, by decide, by decide +kernel⟩

end Runs

end Bwuhos
