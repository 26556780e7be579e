import Bwuhos.AtaPio.Select
import Mathlib.Data.Finset.Card
import Mathlib.Data.Finset.Dedup

namespace Bwuhos

open Bwuhos.Data

/-! # Accesses of the selection cache

The elements of `bus_cache` that `sel_drive` reads and writes.
-/

inductive CacheAccess where
  | read (which : Nat)
  | write (which : Nat)
  | insert (which : Nat)
  deriving DecidableEq, Repr

/-- An element of the array that is in use, or the next one when it is inserted. -/
def CacheAccess.InBounds (busCacheSize : Nat) : CacheAccess → Prop
  | .read which | .write which => which < maxBuses ∧ which < busCacheSize
  | .insert which => which < maxBuses ∧ which = busCacheSize

/-- What the search reads, and where it ends. -/
def selSearch (busIoPort : Nat) : List BusInfo → Nat → List CacheAccess × Nat
  | [], which => ([], which)
  | info :: rest, which =>
      if info.ioPort = busIoPort then ([.read which], which)
      else (.read which :: (selSearch busIoPort rest (which + 1)).1, (selSearch busIoPort rest (which + 1)).2)

/-- The accesses of a call in the order of evaluation: the second half of `&&` and `||` is
evaluated if the first half does not decide. -/
def selAccesses (beyond : BusInfo) (busIoPort devNum selData : Nat) (cache : List BusInfo) : List CacheAccess :=
  let which := (selSearch busIoPort cache 0).2
  let info := cache[which]?.getD beyond
  let compared : List CacheAccess := .read which :: if info.selDevNum = devNum then [.read which] else []
  let guarded := (selSearch busIoPort cache 0).1 ++ if which < cache.length then compared else []
  if which < cache.length ∧ info.selDevNum = devNum ∧ info.selData = selData then guarded
  else if which < maxBuses ∧ which = cache.length then guarded ++ [.insert which]
  else if (info.selDevNum ≠ devNum ∨ info.selData ≠ selData ∨ which = maxBuses) ∧ which < maxBuses then
    guarded ++ compared ++ [.write which, .write which]
  else guarded ++ compared

section Call

variable {beyond : BusInfo} {busIoPort devNum selData base : Nat} {cache : List BusInfo}

theorem selSearch_which :
    (selSearch busIoPort cache base).2 = base + cache.findIdx fun info => info.ioPort = busIoPort := by
  induction cache generalizing base with
  | nil => rfl
  | cons info rest ih =>
      rw [selSearch, List.findIdx_cons]
      by_cases here : info.ioPort = busIoPort
      · simp [here]
      · simp [here, ih]
        omega

theorem selSearch_reads {access : CacheAccess} (member : access ∈ (selSearch busIoPort cache base).1) :
    ∃ which < base + cache.length, access = .read which := by
  induction cache generalizing base with
  | nil => exact absurd member List.not_mem_nil
  | cons info rest ih =>
      rw [selSearch] at member
      split at member
      · exact ⟨base, by simp, List.mem_singleton.mp member⟩
      · obtain rfl | later := List.mem_cons.mp member
        · exact ⟨base, by simp, rfl⟩
        · obtain ⟨which, bound, same⟩ := ih later
          exact ⟨which, by rw [List.length_cons]; omega, same⟩

theorem selSearch_inBounds (bounded : cache.length ≤ maxBuses) :
    ∀ access ∈ (selSearch busIoPort cache 0).1, access.InBounds cache.length := by
  intro access member
  obtain ⟨which, bound, rfl⟩ := selSearch_reads member
  rw [Nat.zero_add] at bound
  exact ⟨Nat.lt_of_lt_of_le bound bounded, bound⟩

theorem findIdx_cached : busIoPort ∈ cache.map BusInfo.ioPort ↔
    cache.findIdx (fun info => info.ioPort = busIoPort) < cache.length := by
  rw [List.findIdx_lt_length, List.mem_map]
  simp only [decide_eq_true_eq]

/-- The reads that compare an element with the arguments. -/
theorem compared_inBounds {which selDevNum : Nat} (inside : which < maxBuses ∧ which < cache.length) :
    ∀ access ∈ CacheAccess.read which :: (if selDevNum = devNum then [.read which] else []),
      access.InBounds cache.length := by
  intro access member
  obtain rfl | second := List.mem_cons.mp member
  · exact inside
  · split at second
    · rw [List.mem_singleton.mp second]
      exact inside
    · exact absurd second List.not_mem_nil

/-- The accesses of a call are in bounds if the bus is cached or there is room for it. -/
theorem selAccesses_inBounds (bounded : cache.length ≤ maxBuses) :
    (∀ access ∈ selAccesses beyond busIoPort devNum selData cache, access.InBounds cache.length) ↔
      busIoPort ∈ cache.map BusInfo.ioPort ∨ cache.length < maxBuses := by
  have search := @selSearch_inBounds busIoPort cache bounded
  have last : cache.findIdx (fun info => info.ioPort = busIoPort) ≤ cache.length := List.findIdx_le_length
  rw [findIdx_cached, selAccesses]
  simp only [selSearch_which, Nat.zero_add]
  generalize cache.findIdx (fun info => info.ioPort = busIoPort) = which at last
  obtain cached | rfl := Nat.lt_or_eq_of_le last
  · have inside : which < maxBuses ∧ which < cache.length := ⟨Nat.lt_of_lt_of_le cached bounded, cached⟩
    have compared := @compared_inBounds devNum cache which (cache[which]?.getD beyond).selDevNum inside
    have guarded := List.forall_mem_append.mpr ⟨search, compared⟩
    have writes : ∀ access ∈ [CacheAccess.write which, .write which], access.InBounds cache.length := by
      intro access member
      obtain rfl : access = .write which := by simpa using member
      exact inside
    rw [if_pos cached]
    refine iff_of_true ?_ (Or.inl cached)
    split
    · exact guarded
    · split
      · next inserts => exact absurd inserts.2 (Nat.ne_of_lt cached)
      · split
        · exact List.forall_mem_append.mpr ⟨List.forall_mem_append.mpr ⟨guarded, compared⟩, writes⟩
        · exact List.forall_mem_append.mpr ⟨guarded, compared⟩
  · simp only [Nat.lt_irrefl, false_and, if_false, false_or, and_true, List.append_nil]
    by_cases room : cache.length < maxBuses
    · rw [if_pos room]
      refine iff_of_true (List.forall_mem_append.mpr ⟨search, fun access member => ?_⟩) room
      rw [List.mem_singleton.mp member]
      exact ⟨room, rfl⟩
    · rw [if_neg room, if_neg fun writes => room writes.2]
      refine iff_of_false (fun every => ?_) room
      have beyondSize := every (.read cache.length) (List.mem_append_right _ List.mem_cons_self)
      exact Nat.lt_irrefl _ beyondSize.2

/-- A bus stays in the cache, and one that is new comes behind the others while there is room. -/
theorem selDrive_buses {World : Type} (bus : AtaBus World) (devNum selData : Nat) {s : AtaState World}
    (bounded : s.busCache.length ≤ maxBuses) :
    (selDrive bus busIoPort devNum selData s).busCache.map BusInfo.ioPort =
      if busIoPort ∈ s.busCache.map BusInfo.ioPort ∨ s.busCache.length = maxBuses then
        s.busCache.map BusInfo.ioPort
      else s.busCache.map BusInfo.ioPort ++ [busIoPort] := by
  have last : s.busCache.findIdx (fun info => info.ioPort = busIoPort) ≤ s.busCache.length := List.findIdx_le_length
  simp only [findIdx_cached, selDrive]
  generalize s.busCache.findIdx (fun info => info.ioPort = busIoPort) = which at last
  obtain cached | rfl := Nat.lt_or_eq_of_le last
  · have samePort : ∀ devNum selData,
        (s.busCache.set which { s.busCache[which] with selDevNum := devNum, selData }).map BusInfo.ioPort =
          s.busCache.map BusInfo.ioPort := by
      intro devNum selData
      have same := @List.set_getElem_self _ (s.busCache.map BusInfo.ioPort) which (by rwa [List.length_map])
      rw [List.getElem_map] at same
      rw [List.map_set]
      exact same
    have found : s.busCache[which]? = some s.busCache[which] := List.getElem?_eq_getElem cached
    rw [if_pos (Or.inl cached)]
    simp only [found, Option.getD_some, Nat.ne_of_lt cached, and_false, if_false]
    split
    · rfl
    · split
      · rw [busCache_portWr]
        split
        · exact samePort devNum selData
        · rfl
      · rfl
  · simp only [Nat.lt_irrefl, false_and, if_false, false_or, and_true]
    by_cases room : s.busCache.length < maxBuses
    · rw [if_pos room, if_neg (Nat.ne_of_lt room), busCache_portWr, List.map_append]
      rfl
    · have full : s.busCache.length = maxBuses := Nat.le_antisymm bounded (Nat.le_of_not_lt room)
      rw [if_neg room, if_pos full, if_neg room, if_pos (Or.inr (Or.inr full)), busCache_portWr]

end Call

section Runs

variable {World : Type} {ports : Ports World}

def SelCall.InBounds (call : SelCall) (cache : List BusInfo) : Prop :=
  ∀ access ∈ selAccesses call.beyond call.busIoPort.toNat call.devNum.toNat call.selData.toNat cache,
    access.InBounds cache.length

/-- Every access of every call, one call after the other. -/
def SelRunInBounds (ports : Ports World) : List SelCall → LoggedState World → Prop
  | [], _ => True
  | call :: rest, s => call.InBounds s.busCache ∧ SelRunInBounds ports rest (call.perform ports s)

/-- The buses in the cache and those that calls select. -/
def selBuses (cache : List BusInfo) (calls : List SelCall) : Finset Nat :=
  (cache.map BusInfo.ioPort ++ calls.map fun call => call.busIoPort.toNat).toFinset

theorem SelCall.perform_buses (call : SelCall) {s : LoggedState World} (bounded : s.busCache.length ≤ maxBuses) :
    (call.perform ports s).busCache.map BusInfo.ioPort =
      if call.busIoPort.toNat ∈ s.busCache.map BusInfo.ioPort ∨ s.busCache.length = maxBuses then
        s.busCache.map BusInfo.ioPort
      else s.busCache.map BusInfo.ioPort ++ [call.busIoPort.toNat] :=
  selDrive_buses _ call.devNum.toNat call.selData.toNat bounded

theorem selBuses_card_nil {cache : List BusInfo} (distinct : (cache.map BusInfo.ioPort).Nodup) :
    (selBuses cache []).card = cache.length := by
  rw [selBuses, List.map_nil, List.append_nil, List.toFinset_card_of_nodup distinct, List.length_map]

theorem selBuses_congr {cache after : List BusInfo} {call : SelCall} {rest : List SelCall}
    (same : ∀ port, port ∈ after.map BusInfo.ioPort ↔ port ∈ cache.map BusInfo.ioPort ∨ port = call.busIoPort.toNat) :
    selBuses after rest = selBuses cache (call :: rest) := by
  ext port
  simp only [selBuses, List.mem_toFinset, List.mem_append, same, List.map_cons, List.mem_cons, or_assoc]

theorem selBuses_card_fresh {cache : List BusInfo} {call : SelCall} {rest : List SelCall}
    (distinct : (cache.map BusInfo.ioPort).Nodup) (fresh : call.busIoPort.toNat ∉ cache.map BusInfo.ioPort) :
    cache.length < (selBuses cache (call :: rest)).card := by
  have more : (call.busIoPort.toNat :: cache.map BusInfo.ioPort).toFinset ⊆ selBuses cache (call :: rest) := by
    intro port member
    simp only [selBuses, List.mem_toFinset, List.mem_append, List.map_cons, List.mem_cons] at member ⊢
    tauto
  have cards := Finset.card_le_card more
  rwa [List.toFinset_card_of_nodup (List.nodup_cons.mpr ⟨fresh, distinct⟩), List.length_cons, List.length_map] at cards

/-- All accesses are in bounds if and only if all buses fit in the cache. -/
theorem selRun_inBounds {calls : List SelCall} {s : LoggedState World} (bounded : s.busCache.length ≤ maxBuses)
    (distinct : (s.busCache.map BusInfo.ioPort).Nodup) :
    SelRunInBounds ports calls s ↔ (selBuses s.busCache calls).card ≤ maxBuses := by
  induction calls generalizing s with
  | nil =>
      rw [selBuses_card_nil distinct]
      exact iff_of_true trivial bounded
  | cons call rest ih =>
      have buses := @SelCall.perform_buses World ports call s bounded
      rw [SelRunInBounds, SelCall.InBounds, selAccesses_inBounds bounded]
      by_cases known : call.busIoPort.toNat ∈ s.busCache.map BusInfo.ioPort
      · rw [if_pos (Or.inl known)] at buses
        have length := congrArg List.length buses
        rw [List.length_map, List.length_map] at length
        rw [and_iff_right (Or.inl known), ih (length ▸ bounded) (buses ▸ distinct), selBuses_congr]
        intro port
        rw [buses, or_iff_left_of_imp]
        intro here
        exact here ▸ known
      · by_cases room : s.busCache.length < maxBuses
        · rw [if_neg fun either => either.elim known (Nat.ne_of_lt room)] at buses
          have length := congrArg List.length buses
          rw [List.length_map, List.length_append, List.length_map] at length
          have fresh : (s.busCache.map BusInfo.ioPort ++ [call.busIoPort.toNat]).Nodup :=
            List.nodup_append.mpr ⟨distinct, List.nodup_singleton _, fun left member right isNew same => by
              rw [same, List.mem_singleton.mp isNew] at member
              exact known member⟩
          rw [and_iff_right (Or.inr room), ih (length ▸ room) (buses ▸ fresh), selBuses_congr]
          intro port
          rw [buses, List.mem_append, List.mem_singleton]
        · have full : s.busCache.length = maxBuses := Nat.le_antisymm bounded (Nat.le_of_not_lt room)
          exact iff_of_false (fun both => both.1.elim known room)
            (Nat.not_le_of_lt (full ▸ selBuses_card_fresh distinct known))

/-- From an empty cache on, no access leaves the array if and only if no more buses are selected
than it has elements. -/
theorem sel_drive_inBounds_iff (calls : List SelCall) {s : LoggedState World} (empty : s.busCache = []) :
    SelRunInBounds ports calls s ↔ (calls.map fun call => call.busIoPort.toNat).toFinset.card ≤ maxBuses := by
  have start := @selRun_inBounds World ports calls s (by rw [empty]; exact Nat.zero_le _)
    (by rw [empty]; exact List.nodup_nil)
  rwa [selBuses, empty, List.map_nil, List.nil_append] at start

def twoBuses : List SelCall := [selSecond 0x1f0, selSecond 0x170, selSecond 0x1f0]

theorem sel_drive_inBounds_iff_twoBuses : SelRunInBounds quietPorts twoBuses quietStart :=
  (sel_drive_inBounds_iff twoBuses rfl).mpr (by decide)

def fiveBuses : List SelCall :=
  [selSecond 0x1f0, selSecond 0x170, selSecond 0x1e8, selSecond 0x168, selSecond 0x1e0]

/-- The fifth bus is looked up behind the array. -/
theorem sel_drive_fiveBuses : ¬SelRunInBounds quietPorts fiveBuses quietStart := by
  rw [@selRun_inBounds Unit quietPorts fiveBuses quietStart (by decide) List.nodup_nil]
  decide

end Runs

end Bwuhos
