import Bwuhos.Paging.Exhaustion
import Bwuhos.Paging.Physical
import Mathlib.Data.Finset.Card

namespace Bwuhos

open Bwuhos.Data

/-! # How many page frames a map takes

One frame for every table, which is one for every region that an address is mapped in.
-/

/-- How many tables the walk for `vaddr` lacks when the earlier addresses are mapped. -/
def newTables (earlier : List Nat) (vaddr : Nat) : Nat :=
  (List.range' 0 3).countP fun level => earlier.all fun other => levelRegion other level ≠ levelRegion vaddr level

/-- How many tables it takes to map further addresses in order.  The latest of the earlier
addresses comes first. -/
def tablesAfter (earlier : List Nat) : List Nat → Nat
  | [] => 0
  | vaddr :: rest => newTables earlier vaddr + tablesAfter (vaddr :: earlier) rest

def tableCount (vaddrs : List Nat) : Nat := tablesAfter [] vaddrs

theorem tablesAfter_append (earlier first second : List Nat) :
    tablesAfter earlier (first ++ second) =
      tablesAfter earlier first + tablesAfter (first.reverse ++ earlier) second := by
  induction first generalizing earlier with
  | nil => rw [List.nil_append, tablesAfter, Nat.zero_add, List.reverse_nil, List.nil_append]
  | cons vaddr rest ih =>
      rw [List.cons_append, tablesAfter, ih, tablesAfter, Nat.add_assoc, List.reverse_cons, List.append_assoc,
        List.singleton_append]

theorem tableCount_append (first second : List Nat) :
    tableCount (first ++ second) = tableCount first + tablesAfter first.reverse second := by
  rw [tableCount, tablesAfter_append, List.append_nil, tableCount]

section

variable {m : PagingMem} {root frame paddr vaddr flags level count : Nat} {calls : List PagingCall}

theorem Permitted.missingTables_eq (permitted : Permitted m root calls)
    (mapped : ∀ call ∈ calls, call.writable.isSome) :
    missingTables m.mem root vaddr = newTables (calls.map PagingCall.vaddr).reverse vaddr := by
  refine List.countP_congr fun level member => ?_
  have bound : level < 3 := by
    have range := List.mem_range'_1.mp member
    omega
  have upper := permitted.upper vaddr level bound
  simp only [List.all_reverse, List.all_map, List.all_eq_true, Function.comp, decide_eq_true_eq, Bool.not_eq_true']
  constructor
  · intro absent call inCalls same
    rw [entryPermission, absent, if_neg Bool.false_ne_true] at upper
    have none := List.findSome?_eq_none_iff.mp upper.symm call inCalls
    rw [if_pos same] at none
    have some := mapped call inCalls
    rw [none] at some
    cases some
  · intro elsewhere
    by_contra present
    rw [entryPermission, if_pos (eq_true_of_ne_false present)] at upper
    obtain ⟨call, inCalls, decides⟩ := List.exists_of_findSome?_eq_some upper.symm
    rw [if_neg (elsewhere call inCalls)] at decides
    cases decides

theorem mapFrom_taken (m : PagingMem) (cur level count : Nat) :
    m.taken ≤ (mapFrom paddr vaddr flags m cur level count).taken := by
  induction count generalizing m cur level with
  | zero => exact Nat.le_refl _
  | succ count ih => exact (nextPgDir_taken m cur (pathIndex vaddr level) flags).1.trans (ih _ _ _)

theorem mapFrom_consumes (wellFormed : MapWellFormed m root)
    (owner : tableAt m.mem root (upperPath vaddr level) = some frame)
    (bound : level + count = 3) (small : flags < 64)
    (supply : FreshPages m.pmm (mapFrom paddr vaddr flags m (4096 * frame) level count).taken) :
    (mapFrom paddr vaddr flags m (4096 * frame) level count).taken =
    m.taken + missingFrom m.mem root vaddr level count := by
  induction count generalizing m frame level with
  | zero => rfl
  | succ count ih =>
      cases present : (wordFor m.mem root vaddr level).testBit 0 with
      | true =>
          obtain ⟨child, call, below⟩ := nextPgDir_linked flags wellFormed.toMapValid owner
            (by rw [upperPath_length]; omega) present
          rw [← upperPath_succ] at below
          rw [missingFrom_present present]
          simp only [mapFrom, call] at supply ⊢
          exact ih wellFormed below (by omega) supply
      | false =>
          have consumed : m.taken < (mapFrom paddr vaddr flags m (4096 * frame) level (count + 1)).taken := by
            have linked : m.taken < (nextPgDir m (4096 * frame) (pathIndex vaddr level) flags).2.taken := by
              have absent := present
              rw [wordFor, wordAt_of_table owner] at absent
              rw [nextPgDir_absent absent]
              exact Nat.lt_succ_self _
            exact Nat.lt_of_lt_of_le linked (mapFrom_taken _ _ _ _)
          obtain ⟨child, answer, call, linked⟩ := nextPgDir_tableLinked wellFormed owner (by omega) present
            (supply.newPage consumed) small
          have same := missingFrom_congr count fun position lower upper =>
            linked.words vaddr position lower (by omega)
          rw [missingFrom_absent present]
          simp only [mapFrom, call] at supply ⊢
          rw [ih linked.wellFormed linked.owner (by omega) supply, same]
          exact Nat.add_right_comm _ _ _

end

namespace Mirrors

variable {regions : List Bitmap} {held frames : Finset Nat} {final : List Nat} {s : PhysMem} {m : PagingMem}
  {page index root frame paddr vaddr flags : Nat} (laid : Laid regions)
  (physical : ∀ page, Managed regions page → page + 4096 ≤ 2 ^ 52) (managed : ∀ page ∈ frames, Managed regions page)
include laid

section

include managed

theorem alloc_answered (mirrors : Mirrors regions held final s m) (room : held.card + s.answers.length < frames.card)
    (history : s.alloc.2.answers <+: final) : Answered final s.alloc.2.answers := by
  refine ⟨history, fun null => ?_⟩
  rcases List.mem_append.mp null with old | last
  · exact mirrors.answered.notNull old
  · have answer : (pmmAlloc s.pmm).1 = physAddrNull := (List.mem_singleton.mp last).symm
    rcases mirrors.owned.alloc laid with ⟨bm, member, index, bound, same, _⟩ | ⟨_, exhausted, _⟩
    · exact (laid.placed bm member).frame_ne_null bound (same.symm.trans answer)
    · have all : frames ⊆ held ∪ s.answers.toFinset := by
        intro page inFrames
        obtain ⟨bm, member, index, bound, rfl⟩ := managed page inFrames
        exact exhausted bm member index bound
      have few := (Finset.card_le_card all).trans (Finset.card_union_le _ _)
      have answers := List.toFinset_card_le s.answers
      omega

theorem nextPgDir_answered (mirrors : Mirrors regions held final s m)
    (room : held.card + s.answers.length < frames.card)
    (history : (s.nextPgDir page index flags).2.answers <+: final) :
    Answered final (s.nextPgDir page index flags).2.answers ∧
      (s.nextPgDir page index flags).2.answers.length ≤ s.answers.length + 1 := by
  unfold PhysMem.nextPgDir at history ⊢
  split at history
  · rename_i absent
    rw [if_pos absent]
    exact ⟨mirrors.alloc_answered laid managed room history, Nat.le_of_eq List.length_append⟩
  · rename_i present
    rw [if_neg present]
    exact ⟨mirrors.answered, Nat.le_succ _⟩

include physical

/-- With three frames to spare, `paging_map` gets all the frames it asks for. -/
theorem pagingMap_answered (mirrors : Mirrors regions held final s m) (valid : MapValid m root) (small : flags < 64)
    (room : held.card + s.answers.length + 3 ≤ frames.card)
    (history : (s.pagingMap (4096 * root) paddr vaddr flags).answers <+: final) :
    Answered final (s.pagingMap (4096 * root) paddr vaddr flags).answers := by
  have start : tableAt m.mem root (upperPath vaddr 0) = some root := rfl
  unfold PhysMem.pagingMap at history ⊢
  simp only [vaddrToPgInd_eq] at history ⊢
  obtain ⟨answered1, length1⟩ := mirrors.nextPgDir_answered laid managed (by omega)
    (((PhysMem.nextPgDir_answers _ _ _ _).trans (PhysMem.nextPgDir_answers _ _ _ _)).trans history)
  obtain ⟨pdpt, s1, m1, call1, _, mirrors1, valid1, owner1⟩ :=
    mirrors.nextTable laid physical valid start (by simp) (pathIndex vaddr 0) small answered1
  rw [call1] at history length1 ⊢
  rw [← upperPath_succ] at owner1
  dsimp only at history length1 ⊢
  obtain ⟨answered2, length2⟩ := mirrors1.nextPgDir_answered laid managed (by omega)
    ((PhysMem.nextPgDir_answers _ _ _ _).trans history)
  obtain ⟨pdt, s2, m2, call2, _, mirrors2, _, _⟩ :=
    mirrors1.nextTable laid physical valid1 owner1 (by simp) (pathIndex vaddr 1) small answered2
  rw [call2] at history length2 ⊢
  dsimp only at history length2 ⊢
  exact (mirrors2.nextPgDir_answered laid managed (by omega) history).1

end

include physical

theorem pagingMap_count (mirrors : Mirrors regions held final s m) (valid : MapValid m root) (bound : paddr < 2 ^ 52)
    (small : flags < 64) (answered : Answered final (s.pagingMap (4096 * root) paddr vaddr flags).answers) :
    (s.pagingMap (4096 * root) paddr vaddr flags).answers.length =
    s.answers.length + missingTables m.mem root vaddr := by
  have next := mirrors.pagingMap laid physical valid bound small answered
  have supply := next.fresh laid physical
  rw [next.supply, ← mirrors.supply, pagingMap_eq_mapFrom] at supply
  have start : tableAt m.mem root (upperPath vaddr 0) = some root := rfl
  have rootFrame := physical _ (mirrors.table valid start (by simp))
  have wellFormed : MapWellFormed m root := by
    refine ⟨valid, by omega, fun path frame within owner zero => ?_⟩
    obtain ⟨call, earlier, answer⟩ := valid.supplied path frame within owner
    exact (mirrors.fresh laid physical).notNull call earlier (by rw [answer, zero]; rfl)
  rw [← next.taken, ← mirrors.taken, pagingMap_eq_mapFrom]
  exact mapFrom_consumes wellFormed start rfl small supply

end Mirrors

end Bwuhos
