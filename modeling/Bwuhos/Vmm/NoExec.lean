import Bwuhos.Paging.Exhaustion
import Bwuhos.Vmm.Writable

namespace Bwuhos

open Bwuhos.Data

/-! # Mappings that may not be executed

`PF_XD` is bit 63 of an entry.  `next_pg_dir` writes it into the entry of a table that it
creates, and its mask leaves the bit in the pointer to that table.
-/

inductive VmmOp where
  | map (paddr vaddr flags : Nat)
  | unmap (vaddr : Nat)

namespace VmmOp

def apply (map : Nat) (m : PagingMem) : VmmOp → PagingMem
  | .map paddr vaddr flags => vmmMap m map paddr vaddr flags
  | .unmap vaddr => vmmUnmap m map vaddr

end VmmOp

/-- Each table that `paging_map` goes on in is the one that is linked on the path to `vaddr`. -/
def MapFollows (m : PagingMem) (root vaddr flags : Nat) : Prop :=
  let pi := vaddrToPgInd vaddr
  let pdpt := nextPgDir m (4096 * root) pi.pdpt flags
  let pdt := nextPgDir pdpt.2 pdpt.1 pi.pdt flags
  let pt := nextPgDir pdt.2 pdt.1 pi.pt flags
  pdpt.1 = tablePointer pdpt.2.mem root (upperPath vaddr 1) ∧
    pdt.1 = tablePointer pdt.2.mem root (upperPath vaddr 2) ∧
    pt.1 = tablePointer pt.2.mem root (upperPath vaddr 3)

/-- Each table that `paging_unmap` goes on in is the one that is linked on the path to `vaddr`. -/
def UnmapFollows (m : PagingMem) (root vaddr : Nat) : Prop :=
  let pi := vaddrToPgInd vaddr
  let pdpt := someNextPgDir m (4096 * root) pi.pdpt
  let pdt := someNextPgDir m pdpt pi.pdt
  let pt := someNextPgDir m pdt pi.pt
  pdpt = tablePointer m.mem root (upperPath vaddr 1) ∧ pdt = tablePointer m.mem root (upperPath vaddr 2) ∧
    pt = tablePointer m.mem root (upperPath vaddr 3)

namespace VmmOp

def Follows (m : PagingMem) (root : Nat) : VmmOp → Prop
  | .map _ vaddr flags => MapFollows m root vaddr (x86Flags flags)
  | .unmap vaddr => UnmapFollows m root vaddr

/-- A mapping that may not be executed finds all tables of its walk. -/
def TablesThere (m : PagingMem) (root : Nat) : VmmOp → Prop
  | .map _ vaddr flags => flags &&& vfNoExec ≠ 0 → missingTables m.mem root vaddr = 0
  | .unmap _ => True

end VmmOp

/-- All operations follow the tables, one after the other. -/
def OpsFollow (root : Nat) : PagingMem → List VmmOp → Prop
  | _, [] => True
  | m, op :: rest => op.Follows m root ∧ OpsFollow root (op.apply (4096 * root) m) rest

def OpsTablesThere (root : Nat) : PagingMem → List VmmOp → Prop
  | _, [] => True
  | m, op :: rest => op.TablesThere m root ∧ OpsTablesThere root (op.apply (4096 * root) m) rest

/-- The walk for `vaddr` ends in an entry for the frame of `paddr` with the execute-disable bit. -/
def MappedNoExec (mem : Nat → Nat) (cr3 paddr vaddr : Nat) : Prop :=
  ∃ entries leaf, walkEntries mem cr3 vaddr = some entries ∧ entries.getLast? = some leaf ∧
    entryAddr leaf = pageOf paddr ∧ leaf.testBit 63 = true

/-- `MapFollows` for the levels that are left. -/
def FollowsFrom (root vaddr flags : Nat) (m : PagingMem) (cur level : Nat) : (count : Nat) → Prop
  | 0 => True
  | count + 1 =>
      let next := nextPgDir m cur (pathIndex vaddr level) flags
      next.1 = tablePointer next.2.mem root (upperPath vaddr (level + 1)) ∧
        FollowsFrom root vaddr flags next.2 next.1 (level + 1) count

section Walk

variable {m : PagingMem} {root frame paddr vaddr flags level count : Nat}

theorem mapFollows_iff : MapFollows m root vaddr flags ↔ FollowsFrom root vaddr flags m (4096 * root) 0 3 := by
  simp only [MapFollows, FollowsFrom, vaddrToPgInd_eq, and_true]

theorem tablePointer_of_table {mem : Nat → Nat} {path : List (Fin 512)} (owner : tableAt mem root path = some frame) :
    tablePointer mem root path = 4096 * frame := by
  rw [tablePointer, owner]

theorem tablePointer_lt {mem : Nat → Nat} (physical : root < 2 ^ 40) (path : List (Fin 512)) :
    tablePointer mem root path < 2 ^ 52 := by
  cases owner : tableAt mem root path with
  | none =>
      rw [tablePointer, owner]
      decide
  | some frame =>
      have bound := tableAt_lt physical owner
      rw [tablePointer_of_table owner]
      omega

theorem mapFrom_pmm (m : PagingMem) (cur level count : Nat) :
    (mapFrom paddr vaddr flags m cur level count).pmm = m.pmm := by
  induction count generalizing m cur level with
  | zero => rfl
  | succ count ih => exact (ih _ _ _).trans (nextPgDir_pmm m cur _ flags)

/-- Where no table is missing, or no flag lies beyond the low bits of an entry, every pointer
is that of a table, and the last entry is written. -/
theorem mapFrom_follows (valid : MapValid m root) (owner : tableAt m.mem root (upperPath vaddr level) = some frame)
    (bound : level + count = 3) (usable : flags < 64 ∨ missingFrom m.mem root vaddr level count = 0)
    (supply : FreshPages m.pmm (m.taken + count)) :
    FollowsFrom root vaddr flags m (4096 * frame) level count ∧
      MapValid (mapFrom paddr vaddr flags m (4096 * frame) level count) root ∧
      wordFor (mapFrom paddr vaddr flags m (4096 * frame) level count).mem root vaddr 3 = leafEntry paddr flags := by
  induction count generalizing m frame level with
  | zero =>
      obtain rfl : level = 3 := bound
      obtain ⟨stored, changed⟩ := storeLeaf_spec valid owner (upperPath_length 3)
        (mapFrom paddr vaddr flags m (4096 * frame) 3 0) rfl rfl (tablesOf_store_twice _ _)
      refine ⟨trivial, stored, ?_⟩
      rw [changed.onWalks (Nat.le_refl 3) vaddr 3 (Nat.le_refl 3), if_pos ⟨rfl, rfl⟩]
  | succ count ih =>
      have room : (upperPath vaddr level).length < 3 := (upperPath_length level).symm ▸ (by omega)
      cases present : (wordFor m.mem root vaddr level).testBit 0 with
      | true =>
          rw [missingFrom_present present] at usable
          obtain ⟨child, call, below⟩ := nextPgDir_linked flags valid owner room present
          rw [← upperPath_succ] at below
          obtain ⟨follows, rest⟩ := ih valid below (by omega) usable (supply.mono (by omega))
          simp only [FollowsFrom, mapFrom, call]
          exact ⟨⟨(tablePointer_of_table below).symm, follows⟩, rest⟩
      | false =>
          rw [missingFrom_absent present] at usable
          have small := usable.resolve_right (Nat.succ_ne_zero _)
          rw [wordFor, wordAt_of_table owner] at present
          have page : NewPage m.pmm m.taken := supply.newPage (by omega)
          obtain ⟨child, answer, call⟩ := nextPgDir_links page small present
          obtain ⟨linked, below, _⟩ := linkFresh_spec (linkedPage m frame (pathIndex vaddr level) child flags) page
            valid owner room small present answer rfl rfl tablesOf_linkedPage
          rw [← upperPath_succ] at below
          have moreSupply : FreshPages (linkedPage m frame (pathIndex vaddr level) child flags).pmm
              ((linkedPage m frame (pathIndex vaddr level) child flags).taken + count) :=
            supply.mono (Nat.le_of_eq (Nat.add_right_comm m.taken 1 count))
          obtain ⟨follows, rest⟩ := ih linked below (by omega) (Or.inl small) moreSupply
          simp only [FollowsFrom, mapFrom, call]
          exact ⟨⟨(tablePointer_of_table below).symm, follows⟩, rest⟩

/-- With `PF_XD` among the flags, the pointer to a new table is not its address. -/
theorem followsFrom_there (valid : MapValid m root) (owner : tableAt m.mem root (upperPath vaddr level) = some frame)
    (bound : level + count = 3) (physical : root < 2 ^ 40)
    (strays : ∀ page < 2 ^ 52, 2 ^ 63 ≤ maskLow 12 (page ||| (pfP ||| flags)))
    (supply : m.pmm m.taken < 2 ^ 52) (follows : FollowsFrom root vaddr flags m (4096 * frame) level count) :
    missingFrom m.mem root vaddr level count = 0 := by
  induction count generalizing frame level with
  | zero => rfl
  | succ count ih =>
      have room : (upperPath vaddr level).length < 3 := (upperPath_length level).symm ▸ (by omega)
      cases present : (wordFor m.mem root vaddr level).testBit 0 with
      | true =>
          obtain ⟨child, call, below⟩ := nextPgDir_linked flags valid owner room present
          rw [← upperPath_succ] at below
          simp only [FollowsFrom, call] at follows
          rw [missingFrom_present present]
          exact ih below (by omega) follows.2
      | false =>
          rw [wordFor, wordAt_of_table owner] at present
          have pointer : (nextPgDir m (4096 * frame) (pathIndex vaddr level) flags).1 =
              maskLow 12 (m.pmm m.taken ||| (pfP ||| flags)) := congrArg Prod.fst (nextPgDir_absent present)
          have first := follows.1
          rw [pointer] at first
          have far := strays _ supply
          have near := @tablePointer_lt root (nextPgDir m (4096 * frame) (pathIndex vaddr level) flags).2.mem physical
            (upperPath vaddr (level + 1))
          omega

end Walk

section Flags

variable {paddr flags : Nat}

theorem x86Flags_declared : x86Flags flags &&& (PagingCall.lowFlags ||| pfXd) = x86Flags flags := by
  unfold x86Flags
  by_cases write : flags &&& vfWrite = 0 <;> by_cases noExec : flags &&& vfNoExec = 0 <;>
    by_cases noCache : flags &&& vfNoCache = 0 <;> simp only [write, noExec, noCache] <;> decide

theorem x86Flags_noExec (noExec : flags &&& vfNoExec ≠ 0) :
    x86Flags flags &&& pfXd ≠ 0 ∧ ∃ low < 64, pfP ||| x86Flags flags = 2 ^ 63 ||| low := by
  refine ⟨?_, (pfP ||| x86Flags flags) &&& 63, Nat.lt_succ_of_le Nat.and_le_right, ?_⟩
  all_goals
    unfold x86Flags
    by_cases write : flags &&& vfWrite = 0 <;> by_cases noCache : flags &&& vfNoCache = 0 <;>
      simp only [write, noExec, noCache] <;> decide

theorem leafEntry_noExec (noExec : flags &&& vfNoExec ≠ 0) (physical : paddr < 2 ^ 52) :
    (leafEntry paddr (x86Flags flags)).testBit 0 = true ∧ (leafEntry paddr (x86Flags flags)).testBit 63 = true ∧
      entryAddr (leafEntry paddr (x86Flags flags)) = pageOf paddr := by
  obtain ⟨_, low, small, bits⟩ := x86Flags_noExec noExec
  have page : leafEntry paddr (x86Flags flags) = 2 ^ 63 + (4096 * (paddr / 4096) + low) := by
    have below : 4096 * (paddr / 4096) + low < 2 ^ 63 := by omega
    have joined : 4096 * (paddr / 4096) ||| low = 4096 * (paddr / 4096) + low := aligned_lor 12 (by omega) (by omega)
    have high := Nat.two_pow_add_eq_or_of_lt below 1
    rw [leafEntry_eq (by omega), bits, ← joined, ← Nat.or_assoc, Nat.or_comm _ (2 ^ 63), Nat.or_assoc, joined]
    simpa only [Nat.mul_one] using high.symm
  refine ⟨?_, ?_, ?_⟩
  · rw [leafEntry_eq (by omega)]
    exact linkWord_present
  · rw [leafEntry, bits, Nat.testBit_or, Nat.testBit_or, Nat.testBit_two_pow_self, Bool.true_or, Bool.or_true]
  · rw [page, entryAddr_eq, pageOf_eq (by omega)]
    omega

end Flags

section Operations

variable {m : PagingMem} {root paddr vaddr flags : Nat} {op : VmmOp} {ops : List VmmOp}

theorem VmmOp.apply_taken (map : Nat) (m : PagingMem) (op : VmmOp) : (op.apply map m).taken ≤ m.taken + 3 := by
  cases op with
  | map paddr vaddr flags => exact (pagingMap_taken m map paddr vaddr (x86Flags flags)).2
  | unmap vaddr => exact (Bwuhos.apply_taken map m (.unmap vaddr)).2

theorem MapValid.root_lt (valid : MapValid m root) (supply : FreshPages m.pmm m.taken) : root < 2 ^ 40 := by
  obtain ⟨call, earlier, answer⟩ := valid.supplied [] root (Nat.zero_le _) rfl
  have physical := supply.physical call earlier
  omega

theorem unmapFollows (valid : MapValid m root) (supply : FreshPages m.pmm m.taken) : UnmapFollows m root vaddr := by
  have start : 4096 * root = tablePointer m.mem root (upperPath vaddr 0) := rfl
  simp only [UnmapFollows, vaddrToPgInd_eq]
  rw [start, someNextPgDir_spec (pathIndex vaddr 0) supply valid (by simp), ← upperPath_succ,
    someNextPgDir_spec (pathIndex vaddr 1) supply valid (by simp), ← upperPath_succ,
    someNextPgDir_spec (pathIndex vaddr 2) supply valid (by simp), ← upperPath_succ]
  exact ⟨rfl, rfl, rfl⟩

theorem vmmMap_follows_iff (valid : MapValid m root) (supply : FreshPages m.pmm (m.taken + 3)) :
    MapFollows m root vaddr (x86Flags flags) ↔ (VmmOp.map paddr vaddr flags).TablesThere m root := by
  have start : tableAt m.mem root (upperPath vaddr 0) = some root := rfl
  have physical := valid.root_lt (supply.mono (Nat.le_add_right _ _))
  rw [mapFollows_iff]
  apply Iff.intro
  · intro follows noExec
    exact followsFrom_there valid start rfl physical
      (fun page bound => declared_strays x86Flags_declared (x86Flags_noExec noExec).1 bound)
      (supply.physical _ (Nat.lt_add_of_pos_right (by decide))) follows
  · intro there
    by_cases noExec : flags &&& vfNoExec = 0
    · exact (@mapFrom_follows m root root 0 _ _ 0 3 valid start rfl (Or.inl (x86Flags_small noExec)) supply).1
    · exact (@mapFrom_follows m root root 0 _ _ 0 3 valid start rfl (Or.inr (there noExec)) supply).1

/-- An operation whose tables are there leaves a map whose tables are where they were linked. -/
theorem VmmOp.apply_valid (valid : MapValid m root) (supply : FreshPages m.pmm (m.taken + 3))
    (there : op.TablesThere m root) :
    MapValid (op.apply (4096 * root) m) root ∧ (op.apply (4096 * root) m).pmm = m.pmm := by
  cases op with
  | unmap vaddr =>
      obtain ⟨same, _, unmapped, _⟩ := pagingUnmap_spec vaddr (supply.mono (Nat.le_add_right _ 3)) valid
      exact ⟨unmapped, same⟩
  | map paddr vaddr flags =>
      have usable : x86Flags flags < 64 ∨ missingFrom m.mem root vaddr 0 3 = 0 := by
        by_cases noExec : flags &&& vfNoExec = 0
        · exact Or.inl (x86Flags_small noExec)
        · exact Or.inr (there noExec)
      rw [VmmOp.apply, vmmMap, pagingMap_eq_mapFrom]
      exact ⟨(mapFrom_follows valid rfl rfl usable supply).2.1, mapFrom_pmm _ _ _ _⟩

theorem opsFollow_iff (valid : MapValid m root) (supply : FreshPages m.pmm (m.taken + 3 * ops.length)) :
    OpsFollow root m ops ↔ OpsTablesThere root m ops := by
  induction ops generalizing m with
  | nil => exact Iff.rfl
  | cons op rest ih =>
      rw [List.length_cons, Nat.mul_succ] at supply
      have enough : FreshPages m.pmm (m.taken + 3) := supply.mono (by omega)
      have first : op.Follows m root ↔ op.TablesThere m root := by
        cases op with
        | map paddr vaddr flags => exact vmmMap_follows_iff valid enough
        | unmap vaddr => exact iff_of_true (unmapFollows valid (enough.mono (Nat.le_add_right _ 3))) trivial
      rw [OpsFollow, OpsTablesThere, first]
      apply and_congr_right
      intro there
      obtain ⟨after, same⟩ := VmmOp.apply_valid valid enough there
      have taken := op.apply_taken (4096 * root) m
      apply ih after
      rw [same]
      exact supply.mono (by omega)

theorem vmmMap_mapped (valid : MapValid m root) (supply : FreshPages m.pmm (m.taken + 3))
    (noExec : flags &&& vfNoExec ≠ 0) (physical : paddr < 2 ^ 52)
    (there : missingTables m.mem root vaddr = 0) :
    MappedNoExec (vmmMap m (4096 * root) paddr vaddr flags).mem (4096 * root) paddr vaddr := by
  obtain ⟨_, _, leaf⟩ := @mapFrom_follows m root root paddr vaddr (x86Flags flags) 0 3 valid rfl rfl (Or.inr there)
    supply
  obtain ⟨present, noExecute, address⟩ := leafEntry_noExec noExec physical
  rw [← pagingMap_eq_mapFrom] at leaf
  refine ⟨(List.range' 0 4).map (wordFor (vmmMap m (4096 * root) paddr vaddr flags).mem root vaddr),
    leafEntry paddr (x86Flags flags), ?_, ?_, address, noExecute⟩
  · rw [walkEntries_eq, vmmMap, leaf, if_pos present]
  · exact congrArg some leaf

/-- After a mapping that may not be executed, all tables are found and the page is mapped as
asked if and only if every such mapping finds its tables in the map. -/
theorem noExec_followed_iff (m : PagingMem) (root paddr vaddr flags : Nat) (later : List VmmOp)
    (valid : MapValid m root) (noExec : flags &&& vfNoExec ≠ 0) (physical : paddr < 2 ^ 52)
    (supply : FreshPages m.pmm (m.taken + 3 * (later.length + 1))) :
    OpsFollow root m (.map paddr vaddr flags :: later) ∧
        MappedNoExec (vmmMap m (4096 * root) paddr vaddr flags).mem (4096 * root) paddr vaddr ↔
      OpsTablesThere root m (.map paddr vaddr flags :: later) := by
  rw [@opsFollow_iff m root (.map paddr vaddr flags :: later) valid supply]
  apply and_iff_left_of_imp
  intro there
  exact vmmMap_mapped valid (supply.mono (by omega)) noExec physical (there.1 noExec)

/-- A map with one page, whose tables also serve the page behind it. -/
def onePage : PagingMem := pagingMap (emptyMap risingPages) 4096 0x5000 0x200000 pfRw

theorem noExec_followed_iff_onePage :
    OpsFollow 1 onePage [.map 0x6000 0x201000 vfNoExec, .unmap 0x200000] ∧
      MappedNoExec (vmmMap onePage 4096 0x6000 0x201000 vfNoExec).mem 4096 0x6000 0x201000 := by
  have supply : ∀ calls ≤ 20, FreshPages risingPages calls := fun calls few => risingPages_fresh (by omega)
  have valid : MapValid onePage 1 :=
    (pagingMap_spec (supply _ (by decide +kernel)) (emptyMap_wellFormed rfl).toMapValid (by decide)).2.1
  exact (noExec_followed_iff onePage 1 0x6000 0x201000 vfNoExec [.unmap 0x200000] valid (by decide) (by decide)
    (supply _ (by decide +kernel))).mpr ⟨fun _ => by decide +kernel, trivial, trivial⟩

/-- The first mapping of an empty map keeps bit 63 in the pointer to the table that it
links, and the page is not mapped. -/
theorem noExec_pointer_strays :
    MapValid (emptyMap risingPages) 1 ∧ FreshPages risingPages ((emptyMap risingPages).taken + 3) ∧
      (nextPgDir (emptyMap risingPages) 4096 0 (x86Flags vfNoExec)).1 = 0x8000000000002000 ∧
      ¬OpsFollow 1 (emptyMap risingPages) [.map 0x5000 0x200000 vfNoExec] ∧
      translate (vmmMap (emptyMap risingPages) 4096 0x5000 0x200000 vfNoExec).mem 4096 0x200000 = none := by
  have valid : MapValid (emptyMap risingPages) 1 := (emptyMap_wellFormed rfl).toMapValid
  have supply : FreshPages risingPages ((emptyMap risingPages).taken + 3) := risingPages_fresh (by decide)
  refine ⟨valid, supply, by decide +kernel, fun follows => ?_, by decide +kernel⟩
  have there := (@opsFollow_iff (emptyMap risingPages) 1 [.map 0x5000 0x200000 vfNoExec] valid supply).mp follows
  exact absurd (there.1 (by decide)) (by decide +kernel)

end Operations

end Bwuhos
