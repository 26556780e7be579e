import Bwuhos.Paging.Permission
import Bwuhos.Vmm

namespace Bwuhos

/-! # Which mapped pages can be written -/

structure VmmCall where
  paddr : Nat
  vaddr : Nat
  flags : Nat
deriving DecidableEq

def vmmRun (mem pmm : Nat → Nat) (calls : List VmmCall) : PagingMem :=
  calls.foldl (fun m call => vmmMap m (vmmCreateMap ⟨mem, pmm, 0⟩).1 call.paddr call.vaddr call.flags)
    (vmmCreateMap ⟨mem, pmm, 0⟩).2

namespace VmmCall

def Writes (call : VmmCall) : Prop := call.flags &&& vfWrite ≠ 0

/-- The flags are a combination of `VF_WRITE` and `VF_NO_CACHE`. -/
def Allowed (call : VmmCall) : Prop := call.flags &&& (vfWrite ||| vfNoCache) = call.flags

def toPaging (call : VmmCall) : PagingCall := .map call.paddr call.vaddr (x86Flags call.flags)

end VmmCall

def latestMap (calls : List VmmCall) (vaddr : Nat) : Option VmmCall :=
  calls.reverse.find? fun call => virtualPage call.vaddr = virtualPage vaddr

def firstMap (calls : List VmmCall) (vaddr level : Nat) : Option VmmCall :=
  calls.find? fun call => levelRegion call.vaddr level = levelRegion vaddr level

/-- A page last mapped for writing lies, at every level above its own entry, in the
region of the first megabyte or in one that was first mapped for writing. -/
def RegionsOpened (calls : List VmmCall) : Prop :=
  ∀ vaddr last, latestMap calls vaddr = some last → last.Writes → ∀ level < 3,
    levelRegion vaddr level = 0 ∨ ∃ first, firstMap calls vaddr level = some first ∧ first.Writes

variable {calls : List VmmCall} {call : VmmCall} {vaddr level flags : Nat} {mem pmm : Nat → Nat}

instance (call : VmmCall) : Decidable call.Writes := inferInstanceAs (Decidable (_ ≠ _))

theorem x86Flags_write : (x86Flags flags).testBit 1 = decide (flags &&& vfWrite ≠ 0) := by
  unfold x86Flags
  by_cases write : flags &&& vfWrite = 0 <;> by_cases noExec : flags &&& vfNoExec = 0 <;>
    by_cases noCache : flags &&& vfNoCache = 0 <;> simp only [ne_eq, write, noExec, noCache] <;> decide

theorem x86Flags_small (executable : flags &&& vfNoExec = 0) : x86Flags flags < 64 := by
  unfold x86Flags
  by_cases write : flags &&& vfWrite = 0 <;> by_cases noCache : flags &&& vfNoCache = 0 <;>
    simp only [write, executable, noCache] <;> decide

theorem allowed_executable (allowed : flags &&& (vfWrite ||| vfNoCache) = flags) : flags &&& vfNoExec = 0 := by
  rw [← allowed, Nat.and_assoc]
  exact Nat.and_zero _

theorem VmmCall.Allowed.small (allowed : call.Allowed) : call.toPaging.flags < 64 :=
  x86Flags_small (allowed_executable allowed)

theorem toPaging_writable : call.toPaging.writable = some (decide call.Writes) := congrArg some x86Flags_write

theorem vmmRun_eq : vmmRun mem pmm calls = createdRun mem pmm (calls.map VmmCall.toPaging) := by
  rw [createdRun, pagingRun, List.foldl_map]
  rfl

theorem lastPermission_toPaging : lastPermission (calls.map VmmCall.toPaging) vaddr =
    (latestMap calls vaddr).map fun call => decide call.Writes := by
  rw [lastPermission, latestMap, ← List.map_reverse, List.find?_map]
  change Option.bind (Option.map _ (calls.reverse.find? fun call => virtualPage call.vaddr = virtualPage vaddr)) _ = _
  cases calls.reverse.find? fun call => virtualPage call.vaddr = virtualPage vaddr with
  | none => rfl
  | some last => exact toPaging_writable

theorem firstPermission_toPaging : firstPermission (calls.map VmmCall.toPaging) vaddr level =
    (firstMap calls vaddr level).map fun call => decide call.Writes := by
  induction calls with
  | nil => rfl
  | cons call rest ih =>
      rw [firstPermission] at ih ⊢
      rw [firstMap] at ih ⊢
      rw [List.map_cons, List.findSome?_cons, List.find?_cons, toPaging_writable]
      by_cases here : levelRegion call.vaddr level = levelRegion vaddr level
      · have same : levelRegion call.toPaging.vaddr level = levelRegion vaddr level := here
        simp only [same, here, if_true, decide_true, Option.map_some]
      · have other : ¬levelRegion call.toPaging.vaddr level = levelRegion vaddr level := here
        simp only [other, here, if_false, decide_false, ih]

/-- Write permission follows the latest mapping of every mapped page exactly when the
regions of all pages last mapped for writing were opened for writing. -/
theorem vmm_writable_iff_regionsOpened (mem pmm : Nat → Nat) (calls : List VmmCall)
    (allowed : ∀ call ∈ calls, call.Allowed) (supply : FreshPages pmm (vmmRun mem pmm calls).taken) :
    (∀ vaddr last, latestMap calls vaddr = some last →
      (EffectivelyWritable (vmmRun mem pmm calls).mem (vmmCreateMap ⟨mem, pmm, 0⟩).1 vaddr ↔ last.Writes)) ↔
      RegionsOpened calls := by
  rw [vmmRun_eq] at supply ⊢
  obtain ⟨root, answer, permitted⟩ := createdRun_permitted supply fun call member => by
    obtain ⟨source, inCalls, rfl⟩ := List.mem_map.mp member
    exact (allowed source inCalls).small
  have table : (vmmCreateMap ⟨mem, pmm, 0⟩).1 = 4096 * root := answer
  rw [table, RegionsOpened]
  refine forall₂_congr fun vaddr last => forall_congr' fun latest => ?_
  have mapped : ∃ call ∈ calls.map VmmCall.toPaging, virtualPage call.vaddr = virtualPage vaddr := by
    refine ⟨last.toPaging, List.mem_map_of_mem (List.mem_reverse.mp (List.mem_of_find?_eq_some latest)), ?_⟩
    have same := List.find?_some latest
    exact of_decide_eq_true same
  have upper : (∀ level < 3, firstPermission (megabyteCalls ++ calls.map VmmCall.toPaging) vaddr level = some true) ↔
      ∀ level < 3, levelRegion vaddr level = 0 ∨ ∃ first, firstMap calls vaddr level = some first ∧ first.Writes := by
    refine forall₂_congr fun level bound => ?_
    rw [firstPermission_created bound, firstPermission_toPaging]
    by_cases first : levelRegion vaddr level = 0
    · simp [first]
    · simp [first, Option.map_eq_some_iff]
  rw [permitted.effectivelyWritable_iff, lastPermission_created mapped, lastPermission_toPaging, latest, upper]
  by_cases writes : last.Writes <;> simp [writes]

theorem vmm_writable_iff_regionsOpened_opened :
    EffectivelyWritable (vmmRun (fun _ => 0) risingPages [⟨0x5000, 0x8000001000, vfWrite⟩]).mem
      (vmmCreateMap ⟨fun _ => 0, risingPages, 0⟩).1 0x8000001000 := by
  have opened : RegionsOpened [⟨0x5000, 0x8000001000, vfWrite⟩] := by
    intro vaddr last latest writes level bound
    have only := List.mem_of_find?_eq_some latest
    rw [List.reverse_singleton, List.mem_singleton] at only
    have page := List.find?_some latest
    have same : virtualPage last.vaddr = virtualPage vaddr := of_decide_eq_true page
    rw [only] at same
    refine Or.inr ⟨⟨0x5000, 0x8000001000, vfWrite⟩, ?_, by decide⟩
    rw [firstMap, List.find?_cons, decide_eq_true (levelRegion_of_page bound same)]
  refine ((vmm_writable_iff_regionsOpened (fun _ => 0) risingPages [⟨0x5000, 0x8000001000, vfWrite⟩] ?_ ?_).mpr opened
    0x8000001000 ⟨0x5000, 0x8000001000, vfWrite⟩ ?_).mpr ?_
  · simp [VmmCall.Allowed, vfWrite, vfNoCache]
  · rw [vmmRun_eq]
    exact risingPages_fresh (Nat.lt_of_le_of_lt createdRun_taken.2 (by decide))
  · decide
  · decide

/-- A page mapped for reading first leaves its neighbour read-only, whatever flags the
neighbour is mapped with. -/
theorem vmm_write_lost :
    FreshPages risingPages
        (vmmRun (fun _ => 0) risingPages [⟨0x5000, 0x8000000000, 0⟩, ⟨0x6000, 0x8000001000, vfWrite⟩]).taken ∧
      latestMap [⟨0x5000, 0x8000000000, 0⟩, ⟨0x6000, 0x8000001000, vfWrite⟩] 0x8000001000 =
        some ⟨0x6000, 0x8000001000, vfWrite⟩ ∧
      ¬EffectivelyWritable
        (vmmRun (fun _ => 0) risingPages [⟨0x5000, 0x8000000000, 0⟩, ⟨0x6000, 0x8000001000, vfWrite⟩]).mem
        (vmmCreateMap ⟨fun _ => 0, risingPages, 0⟩).1 0x8000001000 := by
  have supply : FreshPages risingPages
      (vmmRun (fun _ => 0) risingPages [⟨0x5000, 0x8000000000, 0⟩, ⟨0x6000, 0x8000001000, vfWrite⟩]).taken := by
    rw [vmmRun_eq]
    exact risingPages_fresh (Nat.lt_of_le_of_lt createdRun_taken.2 (by decide))
  refine ⟨supply, by decide, fun writable => ?_⟩
  rw [vmmRun_eq] at supply writable
  obtain ⟨root, answer, permitted⟩ := createdRun_permitted supply (by decide)
  have table : (vmmCreateMap ⟨fun _ => 0, risingPages, 0⟩).1 = 4096 * root := answer
  rw [table, permitted.effectivelyWritable_iff] at writable
  have first := writable.2 0 (by decide)
  rw [firstPermission_created (by decide)] at first
  revert first
  decide

end Bwuhos
