import Bwuhos.Paging.Tree

namespace Bwuhos

open Bwuhos.Data

/-! # What the calls on a page map do to its words -/

section Indices

variable {vaddr other : Nat}

theorem shiftIndex_eq (shift : Nat) : vaddr >>> shift &&& 0x1ff = vaddr / 2 ^ shift % 512 := by
  rw [Nat.shiftRight_eq_div_pow]
  exact Nat.and_two_pow_sub_one_eq_mod _ 9

theorem vaddrToPgInd_eq : vaddrToPgInd vaddr = {
    pdpt := pathIndex vaddr 0
    pdt := pathIndex vaddr 1
    pt := pathIndex vaddr 2
    pg := pathIndex vaddr 3 } := by
  simp only [vaddrToPgInd, shiftIndex_eq, pathIndex, levelIndex]

theorem upperPath_succ (level : Nat) :
    upperPath vaddr (level + 1) = upperPath vaddr level ++ [pathIndex vaddr level] := by
  simp only [upperPath, List.range_succ, List.map_append, List.map_cons, List.map_nil]

@[simp] theorem upperPath_length (level : Nat) : (upperPath vaddr level).length = level := by
  simp only [upperPath, List.length_map, List.length_range]

theorem samePath_iff {level : Nat} (bound : level ≤ 3) :
    (upperPath other level = upperPath vaddr level ∧ pathIndex other level = pathIndex vaddr level) ↔
      levelRegion other level = levelRegion vaddr level := by
  have levels : level = 0 ∨ level = 1 ∨ level = 2 ∨ level = 3 := by omega
  rcases levels with rfl | rfl | rfl | rfl <;>
    simp only [levelRegion, upperPath, List.range_succ, List.range_zero, List.map_cons, List.map_nil,
      List.nil_append, List.cons_append, List.cons.injEq, pathIndex, levelIndex, Fin.mk.injEq, and_true, true_and] <;>
    omega

end Indices

section Words

variable {before after : Nat → Nat} {root vaddr level word : Nat}

theorem WordChanged.onWalks (bound : level ≤ 3)
    (changed : WordChanged before after root (upperPath vaddr level) (pathIndex vaddr level) word)
    (other position : Nat) (within : position ≤ 3) : wordFor after root other position =
      if position = level ∧ levelRegion other position = levelRegion vaddr position then word
      else wordFor before root other position := by
  rw [wordFor, changed _ _ (by rw [upperPath_length]; exact within)]
  refine if_congr ?_ rfl rfl
  constructor
  · intro here
    have same : position = level := by simpa only [upperPath_length] using congrArg List.length here.1
    subst same
    exact ⟨rfl, (samePath_iff bound).mp here⟩
  · rintro ⟨rfl, sameRegion⟩
    exact (samePath_iff bound).mpr sameRegion

theorem wordFor_present_above {mem : Nat → Nat}
    (present : (wordFor mem root vaddr (level + 1)).testBit 0 = true) :
    (wordFor mem root vaddr level).testBit 0 = true := by
  by_contra absent
  have missing : tableAt mem root (upperPath vaddr (level + 1)) = none := by
    rw [upperPath_succ]
    rw [tableAt_snoc]
    cases owner : tableAt mem root (upperPath vaddr level) with
    | none => rfl
    | some frame =>
        rw [wordFor, wordAt_of_table owner] at absent
        exact entryLink_of_absent (eq_false_of_ne_true absent)
  rw [wordFor, wordAt_of_none missing] at present
  exact absurd present (by decide)

end Words

/-- What `paging_map` leaves on each level: the words of the walk for `vaddr`, wherever
other addresses share them, and no other change. -/
structure WalkMapped (before after : Nat → Nat) (root vaddr flags leaf : Nat) (word : Nat → Nat) : Prop where
  last : word 3 = leaf
  linked : ∀ level < 3, LinkedWord (wordFor before root vaddr level) flags (word level)
  words : ∀ other level, level ≤ 3 → wordFor after root other level =
    if levelRegion other level = levelRegion vaddr level then word level else wordFor before root other level

section Calls

variable {m : PagingMem} {root paddr vaddr flags : Nat}

/-- The entry that `paging_map` writes in the last table. -/
def leafEntry (paddr flags : Nat) : Nat := pageOf paddr ||| (pfP ||| flags)

theorem WordChanged.walkMapped {start pdpt pdt pt after : Nat → Nat} {first second third leaf : Nat}
    (changed0 : WordChanged start pdpt root (upperPath vaddr 0) (pathIndex vaddr 0) first)
    (changed1 : WordChanged pdpt pdt root (upperPath vaddr 1) (pathIndex vaddr 1) second)
    (changed2 : WordChanged pdt pt root (upperPath vaddr 2) (pathIndex vaddr 2) third)
    (changed3 : WordChanged pt after root (upperPath vaddr 3) (pathIndex vaddr 3) leaf)
    (link0 : LinkedWord (wordFor start root vaddr 0) flags first)
    (link1 : LinkedWord (wordFor pdpt root vaddr 1) flags second)
    (link2 : LinkedWord (wordFor pdt root vaddr 2) flags third) :
    WalkMapped start after root vaddr flags leaf fun level =>
      match level with
      | 0 => first
      | 1 => second
      | 2 => third
      | _ => leaf := by
  have step0 := changed0.onWalks (by decide)
  have step1 := changed1.onWalks (by decide)
  have step2 := changed2.onWalks (by decide)
  have step3 := changed3.onWalks (by decide)
  refine ⟨rfl, ?_, ?_⟩
  · intro level bound
    match level with
    | 0 => exact link0
    | 1 =>
        rw [step0 vaddr 1 (by decide), if_neg (by simp)] at link1
        exact link1
    | 2 =>
        rw [step1 vaddr 2 (by decide), if_neg (by simp), step0 vaddr 2 (by decide), if_neg (by simp)] at link2
        exact link2
  · intro other level bound
    rw [step3 other level bound, step2 other level bound, step1 other level bound, step0 other level bound]
    match level with
    | 0 => simp
    | 1 => simp
    | 2 => simp
    | 3 => simp

theorem pagingMap_spec (supply : FreshPages m.pmm (pagingMap m (4096 * root) paddr vaddr flags).taken)
    (valid : MapValid m root) (small : flags < 64) :
    (pagingMap m (4096 * root) paddr vaddr flags).pmm = m.pmm ∧
      MapValid (pagingMap m (4096 * root) paddr vaddr flags) root ∧
      ∃ word, WalkMapped m.mem (pagingMap m (4096 * root) paddr vaddr flags).mem root vaddr flags
        (leafEntry paddr flags) word := by
  unfold pagingMap at supply ⊢
  simp only [vaddrToPgInd_eq, load_store_self] at supply ⊢
  have start : tableAt m.mem root (upperPath vaddr 0) = some root := rfl
  have supply1 := supply.mono (Nat.le_trans (nextPgDir_taken _ _ _ _).1 (nextPgDir_taken _ _ _ _).1)
  obtain ⟨pdpt, first, m1, call1, same1, valid1, owner1, link1, changed1⟩ :=
    nextPgDir_spec (pathIndex vaddr 0) supply1 valid start (by simp) small
  rw [call1] at supply ⊢
  rw [← upperPath_succ] at owner1
  have supply2 := supply.mono (nextPgDir_taken _ _ _ _).1
  rw [← same1] at supply2
  obtain ⟨pdt, second, m2, call2, same2, valid2, owner2, link2, changed2⟩ :=
    nextPgDir_spec (pathIndex vaddr 1) supply2 valid1 owner1 (by simp) small
  dsimp only at supply ⊢
  rw [call2] at supply ⊢
  rw [← upperPath_succ] at owner2
  have supply3 := supply
  rw [← same1, ← same2] at supply3
  obtain ⟨pt, third, m3, call3, same3, valid3, owner3, link3, changed3⟩ :=
    nextPgDir_spec (pathIndex vaddr 2) supply3 valid2 owner2 (by simp) small
  dsimp only
  rw [call3]
  rw [← upperPath_succ] at owner3
  obtain ⟨valid4, changed4⟩ := storeLeaf_spec valid3 owner3 (upperPath_length 3)
    ((m3.store (4096 * pt + 8 * pathIndex vaddr 3) (pageOf paddr)).store (4096 * pt + 8 * pathIndex vaddr 3)
      (leafEntry paddr flags)) rfl rfl (tablesOf_store_twice _ _)
  exact ⟨same3.trans (same2.trans same1), valid4, _,
    changed1.walkMapped changed2 changed3 changed4 link1 link2 link3⟩

theorem pagingMap_taken (m : PagingMem) (pml4 paddr vaddr flags : Nat) :
    m.taken ≤ (pagingMap m pml4 paddr vaddr flags).taken ∧
      (pagingMap m pml4 paddr vaddr flags).taken ≤ m.taken + 3 := by
  unfold pagingMap
  have pdpt := nextPgDir_taken m pml4 (vaddrToPgInd vaddr).pdpt flags
  have pdt := nextPgDir_taken (nextPgDir m pml4 (vaddrToPgInd vaddr).pdpt flags).2
    (nextPgDir m pml4 (vaddrToPgInd vaddr).pdpt flags).1 (vaddrToPgInd vaddr).pdt flags
  have pt := nextPgDir_taken
    (nextPgDir (nextPgDir m pml4 (vaddrToPgInd vaddr).pdpt flags).2
      (nextPgDir m pml4 (vaddrToPgInd vaddr).pdpt flags).1 (vaddrToPgInd vaddr).pdt flags).2
    (nextPgDir (nextPgDir m pml4 (vaddrToPgInd vaddr).pdpt flags).2
      (nextPgDir m pml4 (vaddrToPgInd vaddr).pdpt flags).1 (vaddrToPgInd vaddr).pdt flags).1
    (vaddrToPgInd vaddr).pt flags
  exact ⟨pdpt.1.trans (pdt.1.trans pt.1), pt.2.trans (by omega)⟩

/-- The address of the table at the end of a path, null where there is none. -/
def tablePointer (mem : Nat → Nat) (root : Nat) (path : List (Fin 512)) : Nat :=
  match tableAt mem root path with
  | none => 0
  | some frame => 4096 * frame

theorem someNextPgDir_spec {path : List (Fin 512)} (index : Fin 512) (supply : FreshPages m.pmm m.taken)
    (valid : MapValid m root) (room : path.length < 3) :
    someNextPgDir m (tablePointer m.mem root path) index = tablePointer m.mem root (path ++ [index]) := by
  unfold someNextPgDir tablePointer
  rw [tableAt_snoc]
  cases owner : tableAt m.mem root path with
  | none => exact if_pos (Or.inl rfl)
  | some frame =>
      obtain ⟨call, earlier, answer⟩ := valid.supplied path frame (by omega) owner
      have notNull : 4096 * frame ≠ 0 := answer ▸ supply.notNull call earlier
      have clean := valid.clean path index room
      rw [wordAt_of_table owner] at clean
      have read : m.load (4096 * frame + 8 * index) = tablesOf m.mem frame index := rfl
      simp only [read, present_iff]
      cases present : (tablesOf m.mem frame index).testBit 0 with
      | false =>
          rw [if_pos (Or.inr rfl), entryLink_of_absent present]
      | true =>
          rw [if_neg (by simp [notNull]), entryLink_of_present present, maskLow_entry clean]

theorem pagingUnmap_spec (vaddr : Nat) (supply : FreshPages m.pmm m.taken) (valid : MapValid m root) :
    (pagingUnmap m (4096 * root) vaddr).pmm = m.pmm ∧
      (pagingUnmap m (4096 * root) vaddr).taken = m.taken ∧
      MapValid (pagingUnmap m (4096 * root) vaddr) root ∧
      WordChanged m.mem (pagingUnmap m (4096 * root) vaddr).mem root (upperPath vaddr 3) (pathIndex vaddr 3) 0 := by
  have start : 4096 * root = tablePointer m.mem root (upperPath vaddr 0) := rfl
  have last : pagingUnmap m (4096 * root) vaddr =
      if tablePointer m.mem root (upperPath vaddr 3) = 0 then m
      else m.store (tablePointer m.mem root (upperPath vaddr 3) + 8 * pathIndex vaddr 3) 0 := by
    unfold pagingUnmap
    simp only [vaddrToPgInd_eq]
    rw [start, someNextPgDir_spec (pathIndex vaddr 0) supply valid (by simp), ← upperPath_succ,
      someNextPgDir_spec (pathIndex vaddr 1) supply valid (by simp), ← upperPath_succ,
      someNextPgDir_spec (pathIndex vaddr 2) supply valid (by simp), ← upperPath_succ]
  rw [last]
  unfold tablePointer
  cases owner : tableAt m.mem root (upperPath vaddr 3) with
  | none =>
      refine ⟨rfl, rfl, valid, fun other position _ => ?_⟩
      by_cases here : other = upperPath vaddr 3 ∧ position = pathIndex vaddr 3
      · rw [if_pos here, here.1]
        exact wordAt_of_none owner
      · exact (if_neg here).symm
  | some frame =>
      obtain ⟨call, earlier, answer⟩ := valid.supplied _ frame (by simp) owner
      have notNull : 4096 * frame ≠ 0 := answer ▸ supply.notNull call earlier
      dsimp only
      rw [if_neg notNull]
      obtain ⟨stored, changed⟩ := storeLeaf_spec valid owner (upperPath_length 3)
        (m.store (4096 * frame + 8 * pathIndex vaddr 3) 0) rfl rfl (tablesOf_store 0)
      exact ⟨rfl, rfl, stored, changed⟩

theorem clearedRoot_valid {m : PagingMem} (answer : m.pmm m.taken = 4096 * root) :
    MapValid (m.alloc.2.fms64 (4096 * root) 0 (pageSize / 8)) root ∧
      ∀ path index, wordAt (m.alloc.2.fms64 (4096 * root) 0 (pageSize / 8)).mem root path index = 0 := by
  have tables : tablesOf (m.alloc.2.fms64 (4096 * root) 0 (pageSize / 8)).mem =
      Function.update (tablesOf m.mem) root fun _ => 0 := tablesOf_fms64
  have empty : ∀ index, tablesOf (m.alloc.2.fms64 (4096 * root) 0 (pageSize / 8)).mem root index = 0 := by
    intro index
    rw [tables, Function.update_self]
  have onlyRoot : ∀ path frame, tableAt (m.alloc.2.fms64 (4096 * root) 0 (pageSize / 8)).mem root path = some frame →
      path = [] ∧ root = frame := by
    intro path frame reached
    cases path with
    | nil => exact ⟨rfl, Option.some.inj reached⟩
    | cons first rest =>
        rw [tableAt, RadixTree.walk, empty, entryLink_zero] at reached
        cases reached
  have zero : ∀ path index, wordAt (m.alloc.2.fms64 (4096 * root) 0 (pageSize / 8)).mem root path index = 0 := by
    intro path index
    cases owner : tableAt (m.alloc.2.fms64 (4096 * root) 0 (pageSize / 8)).mem root path with
    | none => exact wordAt_of_none owner
    | some frame =>
        obtain ⟨rfl, rfl⟩ := onlyRoot path frame owner
        exact (wordAt_of_table owner).trans (empty index)
  refine ⟨⟨?_, ?_, ?_⟩, zero⟩
  · intro left right frame _ _ leftReached rightReached
    rw [(onlyRoot left frame leftReached).1, (onlyRoot right frame rightReached).1]
  · intro path frame _ reached
    obtain ⟨_, rfl⟩ := onlyRoot path frame reached
    exact ⟨m.taken, Nat.lt_succ_self _, answer⟩
  · intro path index _
    rw [zero]
    decide

end Calls

section Translation

variable {mem : Nat → Nat} {root frame vaddr paddr flags : Nat}

theorem hwWalk_step {level : Nat} (owner : tableAt mem root (upperPath vaddr level) = some frame) (rest : List Nat) :
    hwWalk mem (4096 * frame) (levelIndex vaddr level :: rest) =
      if (wordFor mem root vaddr level).testBit 0 then
        (hwWalk mem (entryAddr (wordFor mem root vaddr level)) rest).map (wordFor mem root vaddr level :: ·)
      else none := by
  rw [wordFor, wordAt_of_table owner]
  rfl

theorem tableAt_below {level : Nat} (present : (wordFor mem root vaddr level).testBit 0 = true) :
    ∃ child, entryAddr (wordFor mem root vaddr level) = 4096 * child ∧
      tableAt mem root (upperPath vaddr (level + 1)) = some child := by
  rw [wordFor] at present ⊢
  cases owner : tableAt mem root (upperPath vaddr level) with
  | none =>
      rw [wordAt_of_none owner] at present
      exact absurd present (by decide)
  | some frame =>
      rw [wordAt_of_table owner] at present ⊢
      refine ⟨_, entryAddr_eq, ?_⟩
      rw [upperPath_succ, tableAt_snoc, owner]
      exact entryLink_of_present present

theorem wordFor_present_upward {level count : Nat}
    (present : (wordFor mem root vaddr (level + count)).testBit 0 = true) :
    (wordFor mem root vaddr level).testBit 0 = true := by
  induction count with
  | zero => exact present
  | succ count ih => exact ih (wordFor_present_above present)

theorem hwWalk_from {level : Nat} (owner : tableAt mem root (upperPath vaddr level) = some frame) (count : Nat) :
    hwWalk mem (4096 * frame) ((List.range' level (count + 1)).map (levelIndex vaddr)) =
      if (wordFor mem root vaddr (level + count)).testBit 0 then
        some ((List.range' level (count + 1)).map (wordFor mem root vaddr))
      else none := by
  induction count generalizing level frame with
  | zero => exact hwWalk_step owner []
  | succ count ih =>
      rw [List.range'_succ, List.map_cons, List.map_cons]
      rw [hwWalk_step owner]
      by_cases present : (wordFor mem root vaddr level).testBit 0 = true
      · obtain ⟨child, addr, below⟩ := tableAt_below present
        rw [if_pos present, addr, ih below, Nat.add_right_comm, Nat.add_assoc]
        split <;> rfl
      · rw [if_neg present, if_neg fun last => present (wordFor_present_upward last)]

theorem walkEntries_eq : walkEntries mem (4096 * root) vaddr =
    if (wordFor mem root vaddr 3).testBit 0 then some ((List.range' 0 4).map (wordFor mem root vaddr)) else none :=
  hwWalk_from rfl 3

theorem translate_eq : translate mem (4096 * root) vaddr =
    if (wordFor mem root vaddr 3).testBit 0 then some (entryAddr (wordFor mem root vaddr 3)) else none := by
  rw [translate, walkEntries_eq]
  split <;> rfl

theorem effectivelyWritable_iff : EffectivelyWritable mem (4096 * root) vaddr ↔
    (wordFor mem root vaddr 3).testBit 0 = true ∧ ∀ level < 4, (wordFor mem root vaddr level).testBit 1 = true := by
  rw [EffectivelyWritable, walkEntries_eq]
  by_cases present : (wordFor mem root vaddr 3).testBit 0 = true
  · simp only [present, if_true, true_and, Option.some.injEq, exists_eq_left', List.mem_map, List.mem_range'_1,
      Nat.zero_le, Nat.zero_add, forall_exists_index, and_imp, forall_apply_eq_imp_iff₂]
  · simp [present]

end Translation

end Bwuhos
