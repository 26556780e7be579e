import Bwuhos.Kheap
import Bwuhos.Data.Transition
import Mathlib.Data.List.Pairwise

namespace Bwuhos

open Bwuhos.Data

/-! # The blocks of the kernel heap -/

namespace Kheap

/-- The first address behind a block, header included. -/
def blockEnd (kh : Kheap) (ent : Nat) : Nat := ent + khEntSize + kh.dataSize ent

end Kheap

/-- The blocks on the list from `kh_head`, by the addresses of their headers. -/
structure HeapShape (kh : Kheap) (blocks : List Nat) : Prop where
  chain : LinkedList.Chain kh.next 0 kh.khHead blocks
  tail : kh.khTail = blocks.getLast?.getD 0
  aligned : ∀ ent ∈ blocks, ent % 16 = 0
  inside : ∀ ent ∈ blocks, khStart ≤ ent ∧ kh.blockEnd ent ≤ khStart + pageSize * kh.khNpages
  disjoint : blocks.Pairwise fun left right => kh.blockEnd left ≤ right ∨ kh.blockEnd right ≤ left
  bounded : kh.khNpages ≤ khMaxNpages
  window : kh.mapped.map MapCur.vaddr = (List.range kh.khNpages).map fun page => khStart + pageSize * page
  backed : ∀ call ∈ kh.mapped, call.paddr ≠ physAddrNull

/-- There is room for a header and `n` bytes at `new`. -/
structure Fits (kh : Kheap) (blocks : List Nat) (n new : Nat) : Prop where
  nonempty : blocks ≠ []
  aligned : new % 16 = 0
  inside : khStart ≤ new ∧ new + khEntSize + n ≤ khStart + pageSize * kh.khNpages
  apart : ∀ ent ∈ blocks, kh.blockEnd ent ≤ new ∨ new + khEntSize + n ≤ ent

/-- What a call of `kheap_alloc` for `n` bytes leaves: all earlier blocks as they were,
and one new block behind them if it succeeds. -/
def AllocOutcome (before : Kheap) (blocks : List Nat) (n ret : Nat) (after : Kheap) : Prop :=
  ∃ added, HeapShape after (blocks ++ added) ∧ (∀ ent ∈ blocks, after.dataSize ent = before.dataSize ent) ∧
    (ret = 0 ∧ added = [] ∨ ∃ new, ret = new + khEntSize ∧ added = [new] ∧ after.dataSize new = n)

section Search

variable {kh : Kheap} {blocks : List Nat} {fuel base limit n ent new : Nat}

theorem HeapShape.limit_eq (shape : HeapShape kh blocks) : kh.limit = khStart + pageSize * kh.khNpages := by
  have := shape.bounded
  simp only [khMaxNpages] at this
  refine u64_of_lt ?_
  simp only [khStart, pageSize]
  omega

theorem HeapShape.blockEnd_bound (shape : HeapShape kh blocks) (member : ent ∈ blocks) :
    kh.blockEnd ent ≤ khStart + 2 ^ 30 := by
  have inside := (shape.inside ent member).2
  have pages := shape.bounded
  simp only [pageSize, khMaxNpages] at inside pages
  omega

/-- What `is_free` tests of one block: the place ends inside the heap, and apart from the block. -/
def Clears (kh : Kheap) (base limit ent : Nat) : Prop :=
  u64 (base + limit) ≤ kh.limit ∧ (kh.blockEnd ent ≤ base ∨ u64 (base + limit) ≤ ent)

instance : Decidable (Clears kh base limit ent) := inferInstanceAs (Decidable (_ ∧ _))

theorem isFree_iff (shape : HeapShape kh blocks) (enough : blocks.length < fuel) :
    ∃ free, isFree fuel kh base limit = some free ∧ (free = true ↔ ∀ ent ∈ blocks, Clears kh base limit ent) := by
  have visits : ∀ ent ∈ blocks, (some (if u64 (base + limit) > kh.limit then some false
      else if base < u64 (ent + khEntSize + kh.dataSize ent) ∧ u64 (base + limit) > ent then some false
      else none) : Option (Option Bool)) =
        some (if Clears kh base limit ent then none else some false) := by
    intro ent member
    have bound := shape.blockEnd_bound member
    have wraps : u64 (ent + khEntSize + kh.dataSize ent) = kh.blockEnd ent := by
      refine u64_of_lt ?_
      simp only [Kheap.blockEnd, khStart] at bound ⊢
      omega
    rw [wraps]
    split
    · next above => rw [if_neg fun clears => absurd clears.1 (by omega)]
    · split
      · next overlaps => rw [if_neg fun clears => absurd clears.2 (by omega)]
      · next below apart => rw [if_pos ⟨by omega, by omega⟩]
  refine ⟨_, LinkedList.scan_chain shape.chain visits enough, ?_⟩
  cases found : blocks.findSome? _ with
  | none =>
      simp only [List.findSome?_eq_none_iff, ite_eq_left_iff, reduceCtorEq, imp_false, not_not] at found
      simpa using found
  | some verdict =>
      obtain ⟨ent, member, rejected⟩ := List.exists_of_findSome?_eq_some found
      split at rejected
      case isTrue => cases rejected
      case isFalse obstructs =>
        obtain rfl := Option.some.inj rejected
        simpa using ⟨ent, member, obstructs⟩

theorem candidate_spec (shape : HeapShape kh blocks) (member : ent ∈ blocks) :
    candidate kh ent % 16 = 0 ∧ kh.blockEnd ent < candidate kh ent ∧ candidate kh ent ≤ kh.blockEnd ent + 16 := by
  have bound := shape.blockEnd_bound member
  simp only [Kheap.blockEnd, khStart, khEntSize] at bound
  simp only [candidate, Kheap.blockEnd, khEntSize, u64]
  omega

/-- `find_free` answers with the first candidate that all blocks leave free, or with null. -/
theorem findFree_iff (shape : HeapShape kh blocks) (enough : blocks.length < fuel) :
    ∃ new, findFree fuel kh n = some new ∧
      ((∃ ent ∈ blocks, (∀ other ∈ blocks, Clears kh (candidate kh ent) (u64 (khEntSize + n)) other) ∧
          new = candidate kh ent) ∨
        new = 0 ∧ ∀ ent ∈ blocks, ¬∀ other ∈ blocks, Clears kh (candidate kh ent) (u64 (khEntSize + n)) other) := by
  have visits : ∀ ent ∈ blocks, ((isFree fuel kh (candidate kh ent) (u64 (khEntSize + n))).map fun free =>
      if free then some (candidate kh ent) else none) =
        some (if ∀ other ∈ blocks, Clears kh (candidate kh ent) (u64 (khEntSize + n)) other
          then some (candidate kh ent) else none) := by
    intro ent member
    obtain ⟨free, answer, verdict⟩ := @isFree_iff kh blocks fuel (candidate kh ent) (u64 (khEntSize + n)) shape enough
    rw [answer, Option.map_some, if_congr verdict rfl rfl]
  refine ⟨_, LinkedList.scan_chain shape.chain visits enough, ?_⟩
  cases found : blocks.findSome? _ with
  | none =>
      simp only [List.findSome?_eq_none_iff, ite_eq_right_iff, reduceCtorEq, imp_false] at found
      exact Or.inr ⟨rfl, found⟩
  | some new =>
      obtain ⟨ent, member, accepted⟩ := List.exists_of_findSome?_eq_some found
      split at accepted
      case isTrue free => exact Or.inl ⟨ent, member, free, (Option.some.inj accepted).symm⟩
      case isFalse => cases accepted

/-- `find_free` answers with null or with a place that fits. -/
theorem findFree_spec (shape : HeapShape kh blocks) (enough : blocks.length < fuel)
    (small : n ≤ khMaxNpages * pageSize) :
    ∃ new, findFree fuel kh n = some new ∧ (new = 0 ∨ Fits kh blocks n new) := by
  have room : u64 (khEntSize + n) = khEntSize + n := by
    refine u64_of_lt ?_
    simp only [khMaxNpages, pageSize, khEntSize] at small ⊢
    omega
  obtain ⟨new, answer, ⟨ent, member, free, rfl⟩ | ⟨rfl, _⟩⟩ := findFree_iff (n := n) shape enough
  · obtain ⟨aligned, behind, near⟩ := candidate_spec shape member
    have bound := shape.blockEnd_bound member
    have inside := (shape.inside ent member).1
    have word : u64 (candidate kh ent + (khEntSize + n)) = candidate kh ent + (khEntSize + n) := by
      refine u64_of_lt ?_
      simp only [khMaxNpages, pageSize, khEntSize, khStart] at small bound ⊢
      omega
    simp only [Clears, room, word, shape.limit_eq] at free
    refine ⟨_, answer, Or.inr ⟨List.ne_nil_of_mem member, aligned, ?_, ?_⟩⟩
    · have last := (free ent member).1
      simp only [Kheap.blockEnd] at behind
      omega
    · intro other otherMember
      have apart := (free other otherMember).2
      omega
  · exact ⟨0, answer, Or.inl rfl⟩

end Search

section Changes

variable {kh : Kheap} {blocks : List Nat} {fuel n ent new : Nat}

theorem Fits.notNull (fits : Fits kh blocks n new) : new ≠ 0 := by
  have := fits.inside.1
  simp only [khStart] at this
  omega

theorem Fits.notMember (fits : Fits kh blocks n new) (member : ent ∈ blocks) : ent ≠ new := by
  have apart := fits.apart ent member
  simp only [Kheap.blockEnd, khEntSize] at apart
  omega

theorem HeapShape.nodup (shape : HeapShape kh blocks) : blocks.Nodup := by
  refine shape.disjoint.imp fun apart => ?_
  simp only [Kheap.blockEnd, khEntSize] at apart
  omega

theorem HeapShape.last (shape : HeapShape kh blocks) (nonempty : blocks ≠ []) : blocks.getLast? = some kh.khTail := by
  have tail := shape.tail
  rw [List.getLast?_eq_some_getLast nonempty] at tail ⊢
  exact congrArg some tail.symm

theorem appendBlock_mem (addr : Nat) : (appendBlock kh new n).mem addr =
    if addr = kh.khTail then new else if addr = new + 8 then n else if addr = new then 0 else kh.mem addr := by
  simp only [appendBlock, Kheap.writeEnt, Function.update_apply]

theorem appendBlock_words (shape : HeapShape kh blocks) (fits : Fits kh blocks n new) :
    (appendBlock kh new n).next new = 0 ∧ (appendBlock kh new n).dataSize new = n ∧
      (appendBlock kh new n).next kh.khTail = new ∧
      (∀ ent ∈ blocks, ent ≠ kh.khTail → (appendBlock kh new n).next ent = kh.next ent) ∧
      ∀ ent ∈ blocks, (appendBlock kh new n).dataSize ent = kh.dataSize ent := by
  have tailMember := List.mem_of_getLast? (shape.last fits.nonempty)
  have tailAligned := shape.aligned kh.khTail tailMember
  have tailOther := fits.notMember tailMember
  have newAligned := fits.aligned
  simp only [Kheap.next, Kheap.dataSize, appendBlock_mem]
  refine ⟨?_, ?_, ?_, ?_, ?_⟩
  · rw [if_neg (by omega), if_neg (by omega), if_pos trivial]
  · rw [if_neg (by omega), if_pos trivial]
  · rw [if_pos trivial]
  · intro ent member notTail
    have entAligned := shape.aligned ent member
    have other := fits.notMember member
    rw [if_neg notTail, if_neg (by omega), if_neg other]
  · intro ent member
    have entAligned := shape.aligned ent member
    have other := fits.notMember member
    rw [if_neg (by omega), if_neg (by omega), if_neg (by omega)]

theorem HeapShape.append (shape : HeapShape kh blocks) (fits : Fits kh blocks n new) :
    HeapShape (appendBlock kh new n) (blocks ++ [new]) := by
  obtain ⟨newNext, newSize, tailNext, nexts, sizes⟩ := appendBlock_words shape fits
  have ends : ∀ ent ∈ blocks, (appendBlock kh new n).blockEnd ent = kh.blockEnd ent := fun ent member =>
    congrArg (ent + khEntSize + ·) (sizes ent member)
  have newEnd : (appendBlock kh new n).blockEnd new = new + khEntSize + n := congrArg (new + khEntSize + ·) newSize
  refine ⟨?_, ?_, ?_, ?_, ?_, shape.bounded, shape.window, shape.backed⟩
  · exact shape.chain.snoc shape.nodup (shape.last fits.nonempty) nexts tailNext fits.notNull newNext
  · rw [List.getLast?_concat]
    rfl
  · intro ent member
    rcases List.mem_append.mp member with old | added
    · exact shape.aligned ent old
    · exact List.mem_singleton.mp added ▸ fits.aligned
  · intro ent member
    rcases List.mem_append.mp member with old | added
    · rw [ends ent old]
      exact shape.inside ent old
    · rw [List.mem_singleton.mp added, newEnd]
      exact fits.inside
  · rw [List.pairwise_append]
    refine ⟨shape.disjoint.imp_of_mem fun left right apart => ?_, List.pairwise_singleton _ _, ?_⟩
    · rw [ends _ left, ends _ right]
      exact apart
    · intro ent member added inSingleton
      rw [List.mem_singleton.mp inSingleton, ends ent member, newEnd]
      exact fits.apart ent member

/-- A page that is taken from the allocator and not mapped changes no block. -/
theorem HeapShape.pmmAlloc (shape : HeapShape kh blocks) : HeapShape kh.pmmAlloc.2 blocks :=
  ⟨shape.chain, shape.tail, shape.aligned, shape.inside, shape.disjoint, shape.bounded, shape.window, shape.backed⟩

theorem HeapShape.grow (shape : HeapShape kh blocks) (room : kh.khNpages < khMaxNpages) {paddr : Nat}
    (page : paddr ≠ physAddrNull) :
    HeapShape { kh.pmmAlloc.2.vmmMapCur paddr kh.limit vfWrite with khNpages := kh.khNpages + 1 } blocks where
  chain := shape.chain
  tail := shape.tail
  aligned := shape.aligned
  inside := fun ent member => by
    have inside := shape.inside ent member
    refine ⟨inside.1, Nat.le_trans inside.2 ?_⟩
    simp only [pageSize]
    omega
  disjoint := shape.disjoint
  bounded := room
  window := by
    simp only [Kheap.vmmMapCur, Kheap.pmmAlloc, List.map_append, shape.window, shape.limit_eq, List.range_succ,
      List.map_cons, List.map_nil]
  backed := fun call member => by
    rcases List.mem_append.mp member with earlier | last
    · exact shape.backed call earlier
    · rw [List.mem_singleton.mp last]
      exact page

end Changes

section Calls

variable {kh after : Kheap} {blocks : List Nat} {fuel more count n ret : Nat}

theorem AllocOutcome.failed (shape : HeapShape kh blocks) : AllocOutcome kh blocks n 0 kh :=
  ⟨[], (List.append_nil blocks).symm ▸ shape, fun _ _ => rfl, Or.inl ⟨rfl, rfl⟩⟩

theorem AllocOutcome.appended {new : Nat} (shape : HeapShape kh blocks) (fits : Fits kh blocks n new) :
    AllocOutcome kh blocks n (new + khEntSize) (appendBlock kh new n) := by
  obtain ⟨_, newSize, _, _, sizes⟩ := appendBlock_words shape fits
  exact ⟨[new], shape.append fits, sizes, Or.inr ⟨new, rfl, rfl, newSize⟩⟩

theorem kheapGrow_spec (shape : HeapShape kh blocks) (enough : blocks.length < fuel)
    (small : n ≤ khMaxNpages * pageSize) (room : kh.khNpages + count ≤ khMaxNpages) :
    ∃ ret after, kheapGrow fuel n count kh = some (ret, after) ∧ AllocOutcome kh blocks n ret after := by
  induction count generalizing kh with
  | zero => exact ⟨0, kh, rfl, .failed shape⟩
  | succ count ih =>
      rw [kheapGrow]
      by_cases null : kh.pmmAlloc.1 = physAddrNull
      · exact ⟨0, _, if_pos null, .failed shape.pmmAlloc⟩
      · have grown := shape.grow (by omega) null
        obtain ⟨new, answer, fits⟩ := findFree_spec grown enough small
        simp only [if_neg null, answer]
        rcases fits with rfl | fits
        · exact ih grown (by simp only; omega)
        · obtain ⟨place, rfl⟩ := Nat.exists_eq_succ_of_ne_zero fits.notNull
          exact ⟨_, _, rfl, .appended grown fits⟩

/-- With fuel for one more node than the list has, `kheap_alloc` returns. -/
theorem kheapAlloc_spec (shape : HeapShape kh blocks) (enough : blocks.length < fuel)
    (small : n ≤ khMaxNpages * pageSize) :
    ∃ ret after, kheapAlloc fuel kh n = some (ret, after) ∧ AllocOutcome kh blocks n ret after := by
  rw [kheapAlloc]
  obtain ⟨new, answer, fits⟩ := findFree_spec shape enough small
  simp only [answer]
  rcases fits with rfl | fits
  · exact kheapGrow_spec shape enough small (by have := shape.bounded; omega)
  · obtain ⟨place, rfl⟩ := Nat.exists_eq_succ_of_ne_zero fits.notNull
    exact ⟨_, _, rfl, .appended shape fits⟩

end Calls

structure Area where
  addr : Nat
  size : Nat
deriving Repr, DecidableEq

def Area.Holds (area : Area) (cell : Nat) : Prop := area.addr ≤ cell ∧ cell < area.addr + area.size

/-- The areas do not overlap, and there is room for a header between them. -/
def Area.Apart (one other : Area) : Prop :=
  one.addr + one.size + khEntSize ≤ other.addr ∨ other.addr + other.size + khEntSize ≤ one.addr

def blockArea (kh : Kheap) (ent : Nat) : Area := ⟨ent + khEntSize, kh.dataSize ent⟩

section Areas

variable {kh : Kheap} {blocks : List Nat} {ent other : Nat}

theorem HeapShape.apart (shape : HeapShape kh blocks) (member : ent ∈ blocks) (also : other ∈ blocks)
    (different : ent ≠ other) : kh.blockEnd ent ≤ other ∨ kh.blockEnd other ≤ ent := by
  have symmetric : Std.Symm fun left right => kh.blockEnd left ≤ right ∨ kh.blockEnd right ≤ left :=
    ⟨fun _ _ => Or.symm⟩
  exact shape.disjoint.forall member also different

/-- Blocks of one heap are the same or apart. -/
theorem HeapShape.areas_apart (shape : HeapShape kh blocks) (member : ent ∈ blocks) (also : other ∈ blocks)
    (different : blockArea kh ent ≠ blockArea kh other) : (blockArea kh ent).Apart (blockArea kh other) := by
  have apart := shape.apart member also fun same => different (congrArg (blockArea kh) same)
  simp only [Kheap.blockEnd] at apart
  simp only [Area.Apart, blockArea]
  omega

end Areas

end Bwuhos
