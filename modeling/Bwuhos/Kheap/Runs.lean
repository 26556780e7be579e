import Bwuhos.Kheap.Blocks

namespace Bwuhos

open Bwuhos.Data

/-! # Runs of the kernel heap -/

/-- The heap before `kheap_init`, whose static variables are zero. -/
def kheapStart (mem pmm : Nat → Nat) : Kheap where
  mem := mem
  khHead := 0
  khTail := 0
  khNpages := 0
  mapped := []
  pmm := pmm
  taken := 0

/-- Calls of `kheap_alloc` for any number of bytes that the whole window can hold. -/
def kheapSystem (mem pmm : Nat → Nat) : TransitionSystem Kheap Nat where
  initial kh := kh = (kheapInit (kheapStart mem pmm)).2
  step before n after := n ≤ khMaxNpages * pageSize ∧ ∃ fuel ret, kheapAlloc fuel before n = some (ret, after)

section Fuel

variable {kh after : Kheap} {fuel more count n new ret base limit : Nat} {free : Bool}

theorem isFree_mono (less : fuel ≤ more) (answer : isFree fuel kh base limit = some free) :
    isFree more kh base limit = some free :=
  LinkedList.scan_mono (fun _ _ same => same) less answer

theorem findFree_mono (less : fuel ≤ more) (answer : findFree fuel kh n = some new) :
    findFree more kh n = some new := by
  refine LinkedList.scan_mono (fun ent answer visited => ?_) less answer
  obtain ⟨free, tested, verdict⟩ := Option.map_eq_some_iff.mp visited
  exact Option.map_eq_some_iff.mpr ⟨free, isFree_mono less tested, verdict⟩

theorem kheapGrow_mono (less : fuel ≤ more) (answer : kheapGrow fuel n count kh = some (ret, after)) :
    kheapGrow more n count kh = some (ret, after) := by
  induction count generalizing kh with
  | zero => exact answer
  | succ count ih =>
      rw [kheapGrow] at answer ⊢
      by_cases null : kh.pmmAlloc.1 = physAddrNull
      · simp only [if_pos null] at answer ⊢
        exact answer
      · simp only [if_neg null] at answer ⊢
        generalize { kh.pmmAlloc.2.vmmMapCur kh.pmmAlloc.1 kh.limit vfWrite with
          khNpages := kh.khNpages + 1 } = grown at answer ⊢
        cases search : findFree fuel grown n with
        | none => simp only [search, reduceCtorEq] at answer
        | some new =>
            rw [findFree_mono less search]
            rw [search] at answer
            cases new with
            | zero => exact ih answer
            | succ place => exact answer

theorem kheapAlloc_mono (less : fuel ≤ more) (answer : kheapAlloc fuel kh n = some (ret, after)) :
    kheapAlloc more kh n = some (ret, after) := by
  rw [kheapAlloc] at answer ⊢
  cases search : findFree fuel kh n with
  | none => simp only [search, reduceCtorEq] at answer
  | some new =>
      rw [findFree_mono less search]
      rw [search] at answer
      cases new with
      | zero => exact kheapGrow_mono less answer
      | succ place => exact answer

/-- Whatever the fuel, a call gives one answer. -/
theorem kheapAlloc_agree {answer other : Nat × Kheap} (one : kheapAlloc fuel kh n = some answer)
    (two : kheapAlloc more kh n = some other) : answer = other :=
  Option.some.inj ((kheapAlloc_mono (Nat.le_max_left fuel more) one).symm.trans
    (kheapAlloc_mono (Nat.le_max_right fuel more) two))

end Fuel

variable {mem pmm : Nat → Nat} {kh : Kheap}

theorem kheapInit_shape : ∃ blocks, HeapShape (kheapInit (kheapStart mem pmm)).2 blocks := by
  by_cases null : (kheapStart mem pmm).pmmAlloc.1 = physAddrNull
  · refine ⟨[], ?_⟩
    rw [kheapInit, if_pos null]
    exact ⟨rfl, rfl, by simp, by simp, .nil, Nat.zero_le _, rfl, by simp [Kheap.pmmAlloc, kheapStart]⟩
  · refine ⟨[khStart], ?_⟩
    rw [kheapInit, if_neg null]
    have onePage : 1 ≤ khMaxNpages := by decide
    refine ⟨⟨rfl, by decide, ?_⟩, rfl, by simp [khStart], ?_, List.pairwise_singleton _ _, onePage, rfl, ?_⟩
    · simp [Kheap.next, Kheap.writeEnt, LinkedList.Chain]
    · simp [Kheap.blockEnd, Kheap.dataSize, Kheap.writeEnt, khEntSize, pageSize]
    · simpa [Kheap.writeEnt, Kheap.vmmMapCur, Kheap.pmmAlloc, kheapStart] using null

theorem kheap_reachable_shape (reached : (kheapSystem mem pmm).Reachable kh) : ∃ blocks, HeapShape kh blocks := by
  refine reached.invariant (fun kh => ∃ blocks, HeapShape kh blocks) ?_ ?_
  · rintro kh rfl
    exact kheapInit_shape
  · rintro before n after _ ⟨blocks, shape⟩ ⟨small, fuel, ret, answer⟩
    obtain ⟨_, _, full, added, outcome, _⟩ := kheapAlloc_spec shape (Nat.lt_succ_self _) small
    obtain ⟨-, rfl⟩ := Prod.mk.inj (kheapAlloc_agree answer full)
    exact ⟨_, outcome⟩

/-- Every reachable heap has the shape of a heap, and every call of `kheap_alloc` on it
returns and keeps the blocks there are. -/
theorem kheap_alloc_keeps_blocks (mem pmm : Nat → Nat) (reached : (kheapSystem mem pmm).Reachable kh) :
    ∃ blocks, HeapShape kh blocks ∧ ∀ n ≤ khMaxNpages * pageSize,
      (∃ fuel ret after, kheapAlloc fuel kh n = some (ret, after)) ∧
        ∀ fuel ret after, kheapAlloc fuel kh n = some (ret, after) → AllocOutcome kh blocks n ret after := by
  obtain ⟨blocks, shape⟩ := kheap_reachable_shape reached
  refine ⟨blocks, shape, fun n small => ?_⟩
  obtain ⟨ret, after, full, outcome⟩ := kheapAlloc_spec shape (Nat.lt_succ_self _) small
  refine ⟨⟨_, ret, after, full⟩, fun fuel otherRet otherAfter answer => ?_⟩
  obtain ⟨rfl, rfl⟩ := Prod.mk.inj (kheapAlloc_agree answer full)
  exact outcome

theorem kheap_alloc_keeps_blocks_firstPages :
    ∃ blocks, HeapShape (kheapInit (kheapStart (fun _ => 7) fun call => 4096 * (call + 1))).2 blocks ∧
      ∃ fuel ret after, kheapAlloc fuel (kheapInit (kheapStart (fun _ => 7) fun call => 4096 * (call + 1))).2 5000 =
          some (ret, after) ∧
        AllocOutcome (kheapInit (kheapStart (fun _ => 7) fun call => 4096 * (call + 1))).2 blocks 5000 ret after := by
  obtain ⟨blocks, shape, calls⟩ := kheap_alloc_keeps_blocks (fun _ => 7)
    (fun call => 4096 * (call + 1)) (.initial rfl)
  obtain ⟨⟨fuel, ret, after, answer⟩, outcomes⟩ := calls 5000 (by decide)
  exact ⟨blocks, shape, fuel, ret, after, answer, outcomes fuel ret after answer⟩

end Bwuhos
