import Bwuhos.Paging.Runs

namespace Bwuhos

open Bwuhos.Data

/-! # Write permissions along the walk

The leaf entry carries the flags of the last mapping of its page.  The entries above it
were written when their tables were created, so they carry the flags of the first
mapping made in the stretch of addresses that they cover.
-/

/-- What an entry allows: nothing when it is not present, else reading or also writing. -/
def entryPermission (entry : Nat) : Option Bool :=
  if entry.testBit 0 then some (entry.testBit 1) else none

namespace PagingCall

def writable : PagingCall → Option Bool
  | map _ _ flags => some (flags.testBit 1)
  | unmap _ => none

def flags : PagingCall → Nat
  | map _ _ flags => flags
  | unmap _ => 0

end PagingCall

/-- The permission that the first mapping in the region of `vaddr` at a level had. -/
def firstPermission (calls : List PagingCall) (vaddr level : Nat) : Option Bool :=
  calls.findSome? fun call => if levelRegion call.vaddr level = levelRegion vaddr level then call.writable else none

/-- The permission that the last call about the page of `vaddr` gave it. -/
def lastPermission (calls : List PagingCall) (vaddr : Nat) : Option Bool :=
  (calls.reverse.find? fun call => virtualPage call.vaddr = virtualPage vaddr).bind PagingCall.writable

structure Permitted (m : PagingMem) (root : Nat) (calls : List PagingCall) : Prop where
  valid : MapValid m root
  upper : ∀ vaddr level, level < 3 → entryPermission (wordFor m.mem root vaddr level) =
    firstPermission calls vaddr level
  leaf : ∀ vaddr, entryPermission (wordFor m.mem root vaddr 3) = lastPermission calls vaddr

variable {m : PagingMem} {root paddr vaddr flags level : Nat} {call : PagingCall} {calls earlier : List PagingCall}
  {mem pmm : Nat → Nat}

theorem firstPermission_snoc : firstPermission (calls ++ [call]) vaddr level =
    (firstPermission calls vaddr level).or
      (if levelRegion call.vaddr level = levelRegion vaddr level then call.writable else none) := by
  rw [firstPermission, List.findSome?_append, List.findSome?_singleton]
  rfl

theorem lastPermission_snoc : lastPermission (calls ++ [call]) vaddr =
    if virtualPage call.vaddr = virtualPage vaddr then call.writable else lastPermission calls vaddr := by
  rw [lastPermission, List.reverse_append, List.reverse_singleton, List.singleton_append, List.find?_cons]
  by_cases same : virtualPage call.vaddr = virtualPage vaddr
  · simp only [same, decide_true, if_true, Option.bind_some]
  · simp only [same, decide_false, if_false]
    rfl

theorem LinkedWord.permission {old word : Nat} (linked : LinkedWord old flags word) :
    entryPermission word = (entryPermission old).or (some (flags.testBit 1)) := by
  unfold LinkedWord at linked
  unfold entryPermission
  cases present : old.testBit 0 with
  | true =>
      rw [present, if_pos rfl] at linked
      rw [linked, present]
      rfl
  | false =>
      simp only [present, Bool.false_eq_true, if_false] at linked
      rw [linked.1, linked.2]
      rfl

theorem leafEntry_permission : entryPermission (leafEntry paddr flags) = some (flags.testBit 1) := by
  have aligned : pageOf paddr % 2 ^ 12 = 0 := by
    rw [pageOf, maskLow, Nat.and_mod_two_pow]
    exact Nat.and_zero _
  have multiple : pageOf paddr = 4096 * (pageOf paddr / 4096) := by omega
  rw [leafEntry, multiple, entryPermission, linkWord_present, linkWord_writable]
  rfl

theorem wordFor_congr {mem : Nat → Nat} {other : Nat} (bound : level ≤ 3)
    (same : levelRegion other level = levelRegion vaddr level) :
    wordFor mem root other level = wordFor mem root vaddr level := by
  obtain ⟨samePath, sameIndex⟩ := (samePath_iff bound).mpr same
  rw [wordFor, wordFor, samePath, sameIndex]

theorem Permitted.map (permitted : Permitted m root calls)
    (supply : FreshPages m.pmm (pagingMap m (4096 * root) paddr vaddr flags).taken) (small : flags < 64) :
    (pagingMap m (4096 * root) paddr vaddr flags).pmm = m.pmm ∧
      Permitted (pagingMap m (4096 * root) paddr vaddr flags) root (calls ++ [.map paddr vaddr flags]) := by
  obtain ⟨same, valid, word, mapped⟩ := pagingMap_spec supply permitted.valid small
  refine ⟨same, valid, ?_, ?_⟩
  · intro other level bound
    rw [firstPermission_snoc, ← permitted.upper other level bound, mapped.words other level (by omega)]
    by_cases here : levelRegion other level = levelRegion vaddr level
    · rw [if_pos here, PagingCall.vaddr, if_pos here.symm, wordFor_congr (by omega) here]
      exact (mapped.linked level bound).permission
    · have elsewhere : levelRegion vaddr level ≠ levelRegion other level := fun same => here same.symm
      rw [if_neg here, PagingCall.vaddr, if_neg elsewhere, Option.or_none]
  · intro other
    rw [lastPermission_snoc, ← permitted.leaf, mapped.words other 3 (by omega)]
    by_cases here : virtualPage vaddr = virtualPage other
    · have sameRegion : levelRegion other 3 = levelRegion vaddr 3 := here.symm
      rw [if_pos sameRegion, PagingCall.vaddr, if_pos here, mapped.last]
      exact leafEntry_permission
    · have elsewhere : levelRegion other 3 ≠ levelRegion vaddr 3 := fun same => here same.symm
      rw [if_neg elsewhere, PagingCall.vaddr, if_neg here]

theorem Permitted.unmap (permitted : Permitted m root calls) (supply : FreshPages m.pmm m.taken) :
    (pagingUnmap m (4096 * root) vaddr).pmm = m.pmm ∧
      Permitted (pagingUnmap m (4096 * root) vaddr) root (calls ++ [.unmap vaddr]) := by
  obtain ⟨same, _, valid, changed⟩ := pagingUnmap_spec vaddr supply permitted.valid
  have words := fun other level bound => changed.onWalks (Nat.le_refl 3) other level bound
  refine ⟨same, valid, ?_, ?_⟩
  · intro other level bound
    rw [words other level (by omega), if_neg (by omega), permitted.upper other level bound, firstPermission_snoc]
    simp only [PagingCall.writable, ite_self, Option.or_none]
  · intro other
    rw [words other 3 (by omega), lastPermission_snoc, ← permitted.leaf]
    by_cases here : virtualPage vaddr = virtualPage other
    · have sameRegion : levelRegion other 3 = levelRegion vaddr 3 := here.symm
      rw [if_pos ⟨rfl, sameRegion⟩, PagingCall.vaddr, if_pos here]
      rfl
    · have elsewhere : levelRegion other 3 ≠ levelRegion vaddr 3 := fun same => here same.symm
      rw [if_neg fun both => elsewhere both.2, PagingCall.vaddr, if_neg here]

theorem Permitted.apply (permitted : Permitted m root calls)
    (supply : FreshPages m.pmm (call.apply (4096 * root) m).taken) (small : call.flags < 64) :
    (call.apply (4096 * root) m).pmm = m.pmm ∧ Permitted (call.apply (4096 * root) m) root (calls ++ [call]) := by
  cases call with
  | map paddr vaddr flags => exact permitted.map supply small
  | unmap vaddr => exact permitted.unmap (supply.mono (apply_taken _ _ _).1)

/-- The permissions along every walk are those of the history of calls. -/
theorem Permitted.run (permitted : Permitted m root earlier)
    (supply : FreshPages m.pmm (pagingRun (4096 * root) m calls).taken) (small : ∀ call ∈ calls, call.flags < 64) :
    Permitted (pagingRun (4096 * root) m calls) root (earlier ++ calls) := by
  induction calls generalizing m earlier with
  | nil => exact (List.append_nil earlier).symm ▸ permitted
  | cons call rest ih =>
      have bound := (pagingRun_taken (4096 * root) (call.apply (4096 * root) m) rest).1
      obtain ⟨same, next⟩ := permitted.apply (supply.mono bound) (small call (List.mem_cons_self ..))
      have done := ih next (same.symm ▸ supply) fun other member => small other (List.mem_cons_of_mem _ member)
      rw [List.append_assoc] at done
      exact done

theorem entryPermission_writable {entry : Nat} :
    entryPermission entry = some true ↔ entry.testBit 0 = true ∧ entry.testBit 1 = true := by
  unfold entryPermission
  cases entry.testBit 0 <;> simp

theorem Permitted.effectivelyWritable_iff (permitted : Permitted m root calls) :
    EffectivelyWritable m.mem (4096 * root) vaddr ↔
      lastPermission calls vaddr = some true ∧ ∀ level < 3, firstPermission calls vaddr level = some true := by
  rw [Bwuhos.effectivelyWritable_iff, ← permitted.leaf, entryPermission_writable]
  constructor
  · rintro ⟨present, writable⟩
    have present2 := wordFor_present_above present
    have present1 := wordFor_present_above present2
    have present0 := wordFor_present_above present1
    refine ⟨⟨present, writable 3 (by decide)⟩, fun level bound => ?_⟩
    rw [← permitted.upper vaddr level bound, entryPermission_writable]
    refine ⟨?_, writable level (by omega)⟩
    match level with
    | 0 => exact present0
    | 1 => exact present1
    | 2 => exact present2
  · rintro ⟨⟨present, leaf⟩, upper⟩
    refine ⟨present, fun level bound => ?_⟩
    by_cases last : level = 3
    · exact last ▸ leaf
    · have here := upper level (by omega)
      rw [← permitted.upper vaddr level (by omega), entryPermission_writable] at here
      exact here.2

theorem levelRegion_of_page {other : Nat} (bound : level < 3) (same : virtualPage other = virtualPage vaddr) :
    levelRegion other level = levelRegion vaddr level := by
  unfold virtualPage at same
  match level with
  | 0 => simp only [levelRegion]; omega
  | 1 => simp only [levelRegion]; omega
  | 2 => simp only [levelRegion]; omega

/-- Where every call maps for writing, every page that was mapped can be written. -/
theorem Permitted.allWritable (permitted : Permitted m root calls)
    (writable : ∀ call ∈ calls, call.writable = some true)
    (about : ∃ call ∈ calls, virtualPage call.vaddr = virtualPage vaddr) :
    EffectivelyWritable m.mem (4096 * root) vaddr := by
  obtain ⟨call, member, same⟩ := about
  refine permitted.effectivelyWritable_iff.mpr ⟨?_, fun level bound => ?_⟩
  · have found : (calls.reverse.find? fun call => virtualPage call.vaddr = virtualPage vaddr).isSome :=
      List.find?_isSome.mpr ⟨call, List.mem_reverse.mpr member, decide_eq_true same⟩
    obtain ⟨last, search⟩ := Option.isSome_iff_exists.mp found
    rw [lastPermission, search]
    exact writable last (List.mem_reverse.mp (List.mem_of_find?_eq_some search))
  · cases search : firstPermission calls vaddr level with
    | none =>
        have missed := List.findSome?_eq_none_iff.mp search call member
        rw [if_pos (levelRegion_of_page bound same), writable call member] at missed
        cases missed
    | some permission =>
        obtain ⟨first, inCalls, decides⟩ := List.exists_of_findSome?_eq_some search
        split at decides
        · exact decides.symm.trans (writable first inCalls)
        · cases decides

theorem createdRun_permitted (supply : FreshPages pmm (createdRun mem pmm calls).taken)
    (small : ∀ call ∈ calls, call.flags < 64) :
    ∃ root, pmm 0 = 4096 * root ∧ Permitted (createdRun mem pmm calls) root (megabyteCalls ++ calls) := by
  have aligned := supply.aligned 0 createdRun_taken.1
  obtain ⟨root, answer⟩ : ∃ root, pmm 0 = 4096 * root := ⟨pmm 0 / 4096, by omega⟩
  have cleared := clearedRoot_valid (m := ⟨mem, pmm, 0⟩) answer
  have empty : Permitted (PagingMem.fms64 ⟨mem, pmm, 1⟩ (4096 * root) 0 (pageSize / 8)) root [] := by
    have zero : ∀ vaddr level,
        wordFor (PagingMem.fms64 ⟨mem, pmm, 1⟩ (4096 * root) 0 (pageSize / 8)).mem root vaddr level = 0 :=
      fun vaddr level => cleared.2 _ _
    exact ⟨cleared.1, fun vaddr level _ => by rw [zero]; rfl, fun vaddr => by rw [zero]; rfl⟩
  rw [createdRun_eq, answer] at supply ⊢
  refine ⟨root, rfl, empty.run supply fun call member => ?_⟩
  rcases List.mem_append.mp member with created | later
  · obtain ⟨page, _, rfl⟩ := List.mem_map.mp created
    have flag : pfRw < 64 := by decide
    exact flag
  · exact small call later

theorem megabyte_region (bound : level < 3) : ∀ call ∈ megabyteCalls, levelRegion call.vaddr level = 0 := by
  intro call member
  obtain ⟨page, inRange, rfl⟩ := List.mem_map.mp member
  have few : page < 256 := List.mem_range.mp inRange
  have small : 4096 * page < 2 ^ (39 - 9 * level) :=
    Nat.lt_of_lt_of_le (by omega : 4096 * page < 2 ^ 20) (Nat.pow_le_pow_right (by decide) (by omega))
  rw [PagingCall.vaddr, levelRegion, pageSize, Nat.div_eq_of_lt small, Nat.zero_mod]

theorem firstPermission_created (bound : level < 3) : firstPermission (megabyteCalls ++ calls) vaddr level =
    if levelRegion vaddr level = 0 then some true else firstPermission calls vaddr level := by
  rw [firstPermission, List.findSome?_append]
  by_cases first : levelRegion vaddr level = 0
  · obtain ⟨rest, created⟩ : ∃ rest, megabyteCalls = .map 0 0 pfRw :: rest :=
      ⟨_, by rw [megabyteCalls, show 0x100000 / pageSize = 255 + 1 from rfl, List.range_succ_eq_map]; rfl⟩
    have origin := megabyte_region bound (.map 0 0 pfRw) (created ▸ List.mem_cons_self ..)
    have writes : PagingCall.writable (.map 0 0 pfRw) = some true := by decide
    rw [created, List.findSome?_cons, if_pos (origin.trans first.symm), writes, if_pos first]
    rfl
  · have outside : megabyteCalls.findSome? (fun call =>
        if levelRegion call.vaddr level = levelRegion vaddr level then call.writable else none) = none := by
      rw [List.findSome?_eq_none_iff]
      intro call member
      rw [megabyte_region bound call member]
      exact if_neg fun zero => first zero.symm
    rw [outside, if_neg first]
    rfl

theorem lastPermission_created (mapped : ∃ call ∈ calls, virtualPage call.vaddr = virtualPage vaddr) :
    lastPermission (megabyteCalls ++ calls) vaddr = lastPermission calls vaddr := by
  obtain ⟨call, member, same⟩ := mapped
  rw [lastPermission, List.reverse_append, List.find?_append]
  cases found : calls.reverse.find? (fun call => virtualPage call.vaddr = virtualPage vaddr) with
  | none =>
      rw [List.find?_eq_none] at found
      exact absurd same (by simpa using found call (List.mem_reverse.mpr member))
  | some last =>
      rw [lastPermission, found]
      rfl

end Bwuhos
