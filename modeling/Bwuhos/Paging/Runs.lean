import Bwuhos.Paging.Calls

namespace Bwuhos

open Bwuhos.Data

/-! # Runs of calls on one page map -/

inductive PagingCall where
  | map (paddr vaddr flags : Nat)
  | unmap (vaddr : Nat)

namespace PagingCall

def vaddr : PagingCall → Nat
  | map _ vaddr _ => vaddr
  | unmap vaddr => vaddr

def apply (pml4 : Nat) (m : PagingMem) : PagingCall → PagingMem
  | map paddr vaddr flags => pagingMap m pml4 paddr vaddr flags
  | unmap vaddr => pagingUnmap m pml4 vaddr

def write (view : Nat → Option Nat) : PagingCall → Nat → Option Nat
  | map paddr vaddr _ => Function.update view (virtualPage vaddr) (some (pageOf paddr))
  | unmap vaddr => Function.update view (virtualPage vaddr) none

/-- The frame that a call leaves its page with. -/
def frame : PagingCall → Option Nat
  | map paddr _ _ => some (pageOf paddr)
  | unmap _ => none

def lowFlags : Nat := pfP ||| pfRw ||| pfUs ||| pfPwt ||| pfPcd ||| pfA

def Allowed : PagingCall → Prop
  | map paddr _ flags => paddr < 2 ^ 52 ∧ flags &&& lowFlags = flags
  | unmap _ => True

end PagingCall

def pagingRun (pml4 : Nat) (m : PagingMem) (calls : List PagingCall) : PagingMem :=
  calls.foldl (PagingCall.apply pml4) m

def firstMegabyte (page : Nat) : Option Nat :=
  if page < 0x100000 / pageSize then some (pageSize * page) else none

/-- Every virtual page has the frame that the last call about it gave it. -/
def lastWrite (calls : List PagingCall) : Nat → Option Nat :=
  calls.foldl PagingCall.write firstMegabyte

/-- The calls that `paging_create_map` makes on the map it creates. -/
def megabyteCalls : List PagingCall :=
  (List.range (0x100000 / pageSize)).map fun page => .map (pageSize * page) (pageSize * page) pfRw

/-- A map that has just been created, and then changed by calls. -/
def createdRun (mem pmm : Nat → Nat) (calls : List PagingCall) : PagingMem :=
  pagingRun (pagingCreateMap ⟨mem, pmm, 0⟩).1 (pagingCreateMap ⟨mem, pmm, 0⟩).2 calls

variable {m : PagingMem} {root paddr vaddr flags : Nat} {view : Nat → Option Nat} {call : PagingCall}
  {calls : List PagingCall} {mem pmm : Nat → Nat}

theorem PagingCall.write_eq (call : PagingCall) :
    call.write view = Function.update view (virtualPage call.vaddr) call.frame := by
  cases call <;> rfl

/-- Calls that agree about a page leave it with the frame that they agree on. -/
theorem foldl_write_agreed {page frame : Nat} (about : ∃ call ∈ calls, virtualPage call.vaddr = page)
    (agreed : ∀ call ∈ calls, virtualPage call.vaddr = page → call.frame = some frame) :
    calls.foldl PagingCall.write view page = some frame := by
  induction calls using List.reverseRecOn with
  | nil =>
      obtain ⟨_, none, _⟩ := about
      cases none
  | append_singleton earlier last ih =>
      rw [List.foldl_append, List.foldl_cons, List.foldl_nil, PagingCall.write_eq]
      by_cases here : virtualPage last.vaddr = page
      · rw [here, Function.update_self]
        exact agreed last (List.mem_append_right _ (List.mem_singleton_self _)) here
      · rw [Function.update_of_ne (Ne.symm here)]
        refine ih ?_ fun call member => agreed call (List.mem_append_left _ member)
        obtain ⟨call, member, same⟩ := about
        rcases List.mem_append.mp member with inEarlier | isLast
        · exact ⟨call, inEarlier, same⟩
        · exact absurd (List.mem_singleton.mp isLast ▸ same) here

/-- The map is intact and translates every address as the view says. -/
structure Refines (m : PagingMem) (root : Nat) (view : Nat → Option Nat) : Prop where
  valid : MapValid m root
  translates : ∀ vaddr, translate m.mem (4096 * root) vaddr = view (virtualPage vaddr)

theorem leafEntry_eq (physical : paddr < 2 ^ 64) :
    leafEntry paddr flags = 4096 * (paddr / 4096) ||| (pfP ||| flags) := by
  rw [leafEntry, pageOf_eq physical, Nat.mul_comm]

theorem entryAddr_leafEntry (physical : paddr < 2 ^ 52) (small : flags < 64) :
    entryAddr (leafEntry paddr flags) = pageOf paddr := by
  have := flags_lt small
  rw [leafEntry_eq (by omega), linkWord_eq small, entryAddr_eq, pageOf_eq (by omega)]
  omega

theorem allowed_flags (allowed : flags &&& PagingCall.lowFlags = flags) : flags < 64 := by
  have : flags ≤ PagingCall.lowFlags := allowed ▸ Nat.and_le_right
  exact Nat.lt_of_le_of_lt this (by decide)

theorem Refines.map (refines : Refines m root view)
    (supply : FreshPages m.pmm (pagingMap m (4096 * root) paddr vaddr flags).taken) (physical : paddr < 2 ^ 52)
    (small : flags < 64) : (pagingMap m (4096 * root) paddr vaddr flags).pmm = m.pmm ∧
      Refines (pagingMap m (4096 * root) paddr vaddr flags) root
        (Function.update view (virtualPage vaddr) (some (pageOf paddr))) := by
  obtain ⟨same, valid, word, mapped⟩ := pagingMap_spec supply refines.valid small
  refine ⟨same, valid, fun other => ?_⟩
  have words := mapped.words other 3 (Nat.le_refl 3)
  rw [translate_eq, words]
  by_cases here : levelRegion other 3 = levelRegion vaddr 3
  · have updated : virtualPage other = virtualPage vaddr := here
    have present : (leafEntry paddr flags).testBit 0 = true := by
      rw [leafEntry_eq (by omega)]
      exact linkWord_present
    rw [if_pos here, mapped.last, if_pos present, entryAddr_leafEntry physical small, updated, Function.update_self]
  · have untouched : virtualPage other ≠ virtualPage vaddr := here
    rw [if_neg here, Function.update_of_ne untouched, ← refines.translates, translate_eq]

theorem Refines.unmap (refines : Refines m root view) (vaddr : Nat) (supply : FreshPages m.pmm m.taken) :
    (pagingUnmap m (4096 * root) vaddr).pmm = m.pmm ∧
      (pagingUnmap m (4096 * root) vaddr).taken = m.taken ∧
      Refines (pagingUnmap m (4096 * root) vaddr) root (Function.update view (virtualPage vaddr) none) := by
  obtain ⟨same, taken, valid, changed⟩ := pagingUnmap_spec vaddr supply refines.valid
  refine ⟨same, taken, valid, fun other => ?_⟩
  have words := changed.onWalks (Nat.le_refl 3) other 3 (Nat.le_refl 3)
  simp only [true_and] at words
  rw [translate_eq, words]
  by_cases here : levelRegion other 3 = levelRegion vaddr 3
  · have updated : virtualPage other = virtualPage vaddr := here
    rw [if_pos here, updated, Function.update_self]
    rfl
  · have untouched : virtualPage other ≠ virtualPage vaddr := here
    rw [if_neg here, Function.update_of_ne untouched, ← refines.translates, translate_eq]

theorem apply_taken (pml4 : Nat) (m : PagingMem) (call : PagingCall) :
    m.taken ≤ (call.apply pml4 m).taken ∧ (call.apply pml4 m).taken ≤ m.taken + 3 := by
  cases call with
  | map paddr vaddr flags => exact pagingMap_taken m pml4 paddr vaddr flags
  | unmap vaddr =>
      have same : (pagingUnmap m pml4 vaddr).taken = m.taken := by
        simp only [pagingUnmap]
        split <;> rfl
      simp only [PagingCall.apply]
      omega

theorem pagingRun_taken (pml4 : Nat) (m : PagingMem) (calls : List PagingCall) :
    m.taken ≤ (pagingRun pml4 m calls).taken ∧ (pagingRun pml4 m calls).taken ≤ m.taken + 3 * calls.length := by
  induction calls generalizing m with
  | nil => exact ⟨Nat.le_refl _, Nat.le_refl _⟩
  | cons call rest ih =>
      have step := apply_taken pml4 m call
      have run := ih (call.apply pml4 m)
      rw [List.length_cons]
      exact ⟨step.1.trans run.1, run.2.trans (by omega)⟩

theorem Refines.apply (refines : Refines m root view)
    (supply : FreshPages m.pmm (call.apply (4096 * root) m).taken) (allowed : call.Allowed) :
    (call.apply (4096 * root) m).pmm = m.pmm ∧ Refines (call.apply (4096 * root) m) root (call.write view) := by
  cases call with
  | map paddr vaddr flags => exact refines.map supply allowed.1 (allowed_flags allowed.2)
  | unmap vaddr =>
      have unmapped := refines.unmap vaddr (supply.mono (apply_taken _ _ _).1)
      exact ⟨unmapped.1, unmapped.2.2⟩

theorem Refines.run (refines : Refines m root view)
    (supply : FreshPages m.pmm (pagingRun (4096 * root) m calls).taken) (allowed : ∀ call ∈ calls, call.Allowed) :
    (pagingRun (4096 * root) m calls).pmm = m.pmm ∧
      Refines (pagingRun (4096 * root) m calls) root (calls.foldl PagingCall.write view) := by
  induction calls generalizing m view with
  | nil => exact ⟨rfl, refines⟩
  | cons call rest ih =>
      have bound := (pagingRun_taken (4096 * root) (call.apply (4096 * root) m) rest).1
      obtain ⟨same, next⟩ := refines.apply (supply.mono bound) (allowed call (List.mem_cons_self ..))
      obtain ⟨kept, done⟩ := ih next (same.symm ▸ supply) fun other member =>
        allowed other (List.mem_cons_of_mem _ member)
      exact ⟨kept.trans same, done⟩

theorem pagingCreateMap_eq : pagingCreateMap m = (m.pmm m.taken, pagingRun (m.pmm m.taken)
    (m.alloc.2.fms64 (m.pmm m.taken) 0 (pageSize / 8)) megabyteCalls) := by
  simp only [pagingCreateMap, pagingRun, megabyteCalls, List.foldl_map]
  rfl

theorem megabyteCalls_allowed : ∀ call ∈ megabyteCalls, call.Allowed := by
  intro call member
  obtain ⟨page, bound, rfl⟩ := List.mem_map.mp member
  have inRange := List.mem_range.mp bound
  have pages : 0x100000 / pageSize = 256 := rfl
  exact ⟨by simp only [pageSize]; omega, by decide⟩

theorem megabyte_view (count : Nat) (few : count ≤ 256) :
    ((List.range count).map fun page => PagingCall.map (pageSize * page) (pageSize * page) pfRw).foldl
      PagingCall.write (fun _ => none) = fun page => if page < count then some (pageSize * page) else none := by
  induction count with
  | zero => rfl
  | succ count ih =>
      have here : virtualPage (pageSize * count) = count := by
        simp only [virtualPage, pageSize]
        omega
      have frame : pageOf (pageSize * count) = pageSize * count := by
        rw [pageOf_eq (by simp only [pageSize]; omega)]
        simp only [pageSize]
        omega
      rw [List.range_succ, List.map_append, List.foldl_append, ih (by omega)]
      funext page
      simp only [List.map_cons, List.map_nil, List.foldl_cons, List.foldl_nil, PagingCall.write, here, frame]
      by_cases last : page = count
      · subst last
        rw [Function.update_self, if_pos (Nat.lt_succ_self _)]
      · rw [Function.update_of_ne last]
        exact if_congr (by omega) rfl rfl

/-- `paging_create_map` followed by calls, as one run on a cleared root table. -/
theorem createdRun_eq : createdRun mem pmm calls =
    pagingRun (pmm 0) (PagingMem.fms64 ⟨mem, pmm, 1⟩ (pmm 0) 0 (pageSize / 8)) (megabyteCalls ++ calls) := by
  simp only [createdRun, pagingCreateMap_eq, pagingRun, List.foldl_append, PagingMem.alloc]

theorem createdRun_taken : 1 ≤ (createdRun mem pmm calls).taken ∧
    (createdRun mem pmm calls).taken ≤ 1 + 3 * (256 + calls.length) := by
  have run := pagingRun_taken (pmm 0) (PagingMem.fms64 ⟨mem, pmm, 1⟩ (pmm 0) 0 (pageSize / 8)) (megabyteCalls ++ calls)
  have size : megabyteCalls.length = 256 := by simp [megabyteCalls, pageSize]
  have start : (PagingMem.fms64 ⟨mem, pmm, 1⟩ (pmm 0) 0 (pageSize / 8)).taken = 1 := rfl
  rw [List.length_append, size, start] at run
  rw [createdRun_eq]
  exact run

theorem createdRun_refines (supply : FreshPages pmm (createdRun mem pmm calls).taken)
    (allowed : ∀ call ∈ calls, call.Allowed) :
    ∃ root, pmm 0 = 4096 * root ∧ (createdRun mem pmm calls).pmm = pmm ∧
      Refines (createdRun mem pmm calls) root (lastWrite calls) := by
  have aligned := supply.aligned 0 createdRun_taken.1
  obtain ⟨root, answer⟩ : ∃ root, pmm 0 = 4096 * root := ⟨pmm 0 / 4096, by omega⟩
  have cleared := clearedRoot_valid (m := ⟨mem, pmm, 0⟩) answer
  have empty : Refines (PagingMem.fms64 ⟨mem, pmm, 1⟩ (4096 * root) 0 (pageSize / 8)) root fun _ => none := by
    refine ⟨cleared.1, fun vaddr => ?_⟩
    have zero : wordFor (PagingMem.fms64 ⟨mem, pmm, 1⟩ (4096 * root) 0 (pageSize / 8)).mem root vaddr 3 = 0 :=
      cleared.2 _ _
    rw [translate_eq, zero]
    rfl
  rw [createdRun_eq, answer] at supply ⊢
  obtain ⟨same, refines⟩ := empty.run supply fun call member =>
    (List.mem_append.mp member).elim (megabyteCalls_allowed call) (allowed call)
  refine ⟨root, rfl, same, ?_⟩
  rw [List.foldl_append, megabyteCalls, megabyte_view _ (by decide)] at refines
  exact refines

/-- A page map refines the map of its last writes. -/
theorem paging_refines_lastWrite (mem pmm : Nat → Nat) (calls : List PagingCall)
    (allowed : ∀ call ∈ calls, call.Allowed) (supply : FreshPages pmm (createdRun mem pmm calls).taken) :
    (∀ vaddr, translate (createdRun mem pmm calls).mem (pmm 0) vaddr = lastWrite calls (virtualPage vaddr)) ∧
      ∀ earlier call later, calls = earlier ++ call :: later → ∀ vaddr, virtualPage vaddr ≠ virtualPage call.vaddr →
        translate (createdRun mem pmm (earlier ++ [call])).mem (pmm 0) vaddr =
          translate (createdRun mem pmm earlier).mem (pmm 0) vaddr := by
  have views : ∀ first rest, calls = first ++ rest → ∀ vaddr,
      translate (createdRun mem pmm first).mem (pmm 0) vaddr = lastWrite first (virtualPage vaddr) := by
    intro first rest split vaddr
    have longer : createdRun mem pmm calls = pagingRun (pmm 0) (createdRun mem pmm first) rest := by
      simp only [split, createdRun_eq, pagingRun, List.foldl_append]
    rw [longer] at supply
    obtain ⟨root, answer, _, refines⟩ := createdRun_refines (supply.mono (pagingRun_taken _ _ _).1)
      fun call member => allowed call (split ▸ List.mem_append_left _ member)
    rw [answer]
    exact refines.translates vaddr
  refine ⟨views calls [] (List.append_nil _).symm, ?_⟩
  intro earlier call later split vaddr other
  rw [views (earlier ++ [call]) later (by rw [split, List.append_assoc]; rfl), views earlier (call :: later) split]
  rw [lastWrite, lastWrite, List.foldl_append, List.foldl_cons, List.foldl_nil]
  cases call with
  | map paddr target flags => exact Function.update_of_ne other _ _
  | unmap target => exact Function.update_of_ne other _ _

/-- The page frames in order, from the second one up. -/
def risingPages (call : Nat) : Nat := 4096 * (call + 1)

theorem risingPages_fresh {calls : Nat} (few : calls < 2 ^ 40) : FreshPages risingPages calls where
  aligned := fun call _ => Nat.mul_mod_right 4096 _
  physical := fun call bound => by unfold risingPages; omega
  notNull := fun call _ => by unfold risingPages physAddrNull; omega
  distinct := fun call _ other _ same => by unfold risingPages at same; omega

theorem paging_refines_lastWrite_remap :
    translate (createdRun (fun _ => 0) risingPages
      [.map 0x5000 0x8000000000 pfRw, .map 0x7000 0x8000000fff pfUs, .unmap 0x8000001000]).mem (risingPages 0)
      0x8000000123 = some 0x7000 :=
  (paging_refines_lastWrite (fun _ => 0) risingPages
    [.map 0x5000 0x8000000000 pfRw, .map 0x7000 0x8000000fff pfUs, .unmap 0x8000001000]
    (by simp [PagingCall.Allowed, PagingCall.lowFlags, pfP, pfRw, pfUs, pfPwt, pfPcd, pfA])
    (risingPages_fresh (Nat.lt_of_le_of_lt createdRun_taken.2 (by decide)))).1 0x8000000123

end Bwuhos
