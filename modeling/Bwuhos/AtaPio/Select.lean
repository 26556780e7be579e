import Bwuhos.AtaPio.Log
import Bwuhos.Data.Transition
import Mathlib.Data.List.Nodup

namespace Bwuhos

open Bwuhos.Data

/-! # The selection cache

`sel_drive` leaves out a write that would repeat the last one to the drive-select register of
the bus, as far as `bus_cache` remembers it.
-/

/-- The cache has one entry for a bus, with what was last written to its drive-select register. -/
structure SelCoherent (last : Nat → Option Nat) (cache : List BusInfo) : Prop where
  bounded : cache.length ≤ maxBuses
  distinct : (cache.map BusInfo.ioPort).Nodup
  ports : ∀ info ∈ cache, info.ioPort < 2 ^ 16
  agrees : ∀ info ∈ cache, last info.ioPort = some info.selData

section Cache

variable {last other : Nat → Option Nat} {cache : List BusInfo} {busIoPort devNum selData which : Nat} {info : BusInfo}

theorem SelCoherent.congr (coherent : SelCoherent last cache) (same : ∀ port < 2 ^ 16, other port = last port) :
    SelCoherent other cache where
  bounded := coherent.bounded
  distinct := coherent.distinct
  ports := coherent.ports
  agrees := fun info member => (same _ (coherent.ports info member)).trans (coherent.agrees info member)

theorem SelCoherent.absent (coherent : SelCoherent last cache) (absent : busIoPort ∉ cache.map BusInfo.ioPort) :
    SelCoherent (Function.update last busIoPort (some selData)) cache where
  bounded := coherent.bounded
  distinct := coherent.distinct
  ports := coherent.ports
  agrees := fun info member => by
    have different : info.ioPort ≠ busIoPort := fun same => absent (same ▸ List.mem_map_of_mem member)
    rw [Function.update_of_ne different]
    exact coherent.agrees info member

theorem SelCoherent.append (coherent : SelCoherent last cache) (absent : busIoPort ∉ cache.map BusInfo.ioPort)
    (room : cache.length < maxBuses) (port : busIoPort < 2 ^ 16) :
    SelCoherent (Function.update last busIoPort (some selData))
      (cache ++ [{ ioPort := busIoPort, selDevNum := devNum, selData }]) where
  bounded := by
    rw [List.length_append]
    exact room
  distinct := by
    rw [List.map_append, List.nodup_append]
    refine ⟨coherent.distinct, List.nodup_singleton _, fun left member right isNew same => ?_⟩
    rw [List.map_singleton, List.mem_singleton] at isNew
    rw [same, isNew] at member
    exact absent member
  ports := fun info member => by
    rcases List.mem_append.mp member with old | new
    · exact coherent.ports info old
    · rw [List.mem_singleton.mp new]
      exact port
  agrees := fun info member => by
    rcases List.mem_append.mp member with old | new
    · exact (coherent.absent absent).agrees info old
    · rw [List.mem_singleton.mp new]
      exact Function.update_self _ _ _

theorem SelCoherent.set (devNum : Nat) (coherent : SelCoherent last cache) (found : cache[which]? = some info)
    (here : info.ioPort = busIoPort) :
    SelCoherent (Function.update last busIoPort (some selData))
      (cache.set which { info with selDevNum := devNum, selData }) := by
  have inside : which < cache.length := (List.getElem?_eq_some_iff.mp found).1
  have element : cache[which] = info := (List.getElem?_eq_some_iff.mp found).2
  have samePorts : (cache.set which { info with selDevNum := devNum, selData }).map BusInfo.ioPort =
      cache.map BusInfo.ioPort := by
    have mapped : which < (cache.map BusInfo.ioPort).length := by simpa using inside
    have same := List.set_getElem_self mapped
    rw [List.getElem_map, element] at same
    rw [List.map_set]
    exact same
  refine ⟨?_, ?_, ?_, ?_⟩
  · rw [List.length_set]
    exact coherent.bounded
  · rw [samePorts]
    exact coherent.distinct
  · intro other member
    have inPorts := List.mem_map_of_mem (f := BusInfo.ioPort) member
    rw [samePorts] at inPorts
    obtain ⟨old, oldMember, samePort⟩ := List.mem_map.mp inPorts
    rw [← samePort]
    exact coherent.ports old oldMember
  · intro other member
    obtain ⟨position, bound, isOther⟩ := List.mem_iff_getElem.mp member
    rw [List.length_set] at bound
    rw [List.getElem_set] at isOther
    split at isOther
    · rw [← isOther, ← here]
      exact Function.update_self _ _ _
    · next elsewhere =>
        have different : other.ioPort ≠ busIoPort := by
          intro same
          have first : which < (cache.map BusInfo.ioPort).length := by simpa using inside
          have second : position < (cache.map BusInfo.ioPort).length := by simpa using bound
          have ports : (cache.map BusInfo.ioPort)[which] = (cache.map BusInfo.ioPort)[position] := by
            simp only [List.getElem_map, element, isOther, here, same]
          exact elsewhere ((coherent.distinct.getElem_inj_iff).mp ports)
        rw [Function.update_of_ne different]
        exact coherent.agrees other (isOther ▸ List.getElem_mem bound)

end Cache

section Call

variable {World : Type} {last : Nat → Option Nat} {busIoPort : Nat} {s : AtaState World}

/-- A call of `sel_drive` either writes the drive-select register or finds in the cache that
it holds the value, and leaves the cache coherent. -/
theorem selDrive_spec (bus : AtaBus World) (devNum selData : Nat) (port : busIoPort < 2 ^ 16)
    (coherent : SelCoherent last s.busCache) :
    ∃ cache, SelCoherent (Function.update last busIoPort (some selData)) cache ∧
      (selDrive bus busIoPort devNum selData s = { s with busCache := cache } ∧ last busIoPort = some selData ∨
        selDrive bus busIoPort devNum selData s =
          AtaState.portWr { s with busCache := cache } bus (busIoPort + irDriveSel) selData .ps8) := by
  have bounded := coherent.bounded
  simp only [selDrive]
  cases found : s.busCache[s.busCache.findIdx fun info => info.ioPort = busIoPort]? with
  | some info =>
      have inside := (List.getElem?_eq_some_iff.mp found).1
      have element := (List.getElem?_eq_some_iff.mp found).2
      have here : info.ioPort = busIoPort := by
        have matched := List.findIdx_getElem (w := inside)
        rw [element] at matched
        exact of_decide_eq_true matched
      have notLast : ¬(s.busCache.findIdx (fun info => info.ioPort = busIoPort) < maxBuses ∧
          s.busCache.findIdx (fun info => info.ioPort = busIoPort) = s.busCache.length) := by omega
      simp only [Option.getD_some, inside, true_and, if_neg notLast]
      by_cases same : info.selDevNum = devNum ∧ info.selData = selData
      · have known : last busIoPort = some selData := by
          rw [← here, ← same.2]
          exact coherent.agrees info (element ▸ List.getElem_mem inside)
        refine ⟨s.busCache, ?_, Or.inl ⟨if_pos same, known⟩⟩
        rw [← known, Function.update_eq_self]
        exact coherent
      · refine ⟨_, coherent.set devNum found here, Or.inr ?_⟩
        rw [if_neg same, if_pos (by tauto), if_pos (by omega)]
  | none =>
      have absent : busIoPort ∉ s.busCache.map BusInfo.ioPort := by
        have none := List.findIdx_eq_length.mp
          (Nat.le_antisymm List.findIdx_le_length (List.getElem?_eq_none_iff.mp found))
        intro member
        obtain ⟨info, inCache, same⟩ := List.mem_map.mp member
        exact absurd same (of_decide_eq_false (none info inCache))
      have which : s.busCache.findIdx (fun info => info.ioPort = busIoPort) = s.busCache.length :=
        Nat.le_antisymm List.findIdx_le_length (List.getElem?_eq_none_iff.mp found)
      simp only [which, Nat.lt_irrefl, false_and, if_false, and_true]
      by_cases room : s.busCache.length < maxBuses
      · exact ⟨_, coherent.append absent room port, Or.inr (if_pos room)⟩
      · have full : s.busCache.length = maxBuses := Nat.le_antisymm bounded (Nat.le_of_not_lt room)
        refine ⟨s.busCache, coherent.absent absent, Or.inr ?_⟩
        rw [if_neg room, if_pos (Or.inr (Or.inr full)), if_neg room]

end Call

/-- A call of `sel_drive`, and what lies behind `bus_cache` while it runs. -/
structure SelCall where
  busIoPort : UInt16
  devNum : UInt8
  selData : UInt8
  beyond : BusInfo

section Runs

variable {World : Type} {ports : Ports World} {before : LoggedState World}

def SelCall.perform (ports : Ports World) (call : SelCall) (s : LoggedState World) : LoggedState World :=
  selDrive (AtaBus.logged ⟨ports, call.beyond⟩ call.busIoPort.toNat) call.busIoPort.toNat call.devNum.toNat
    call.selData.toNat s

/-- Calls of `sel_drive` in any order, from an empty cache on. -/
def selSystem (ports : Ports World) : TransitionSystem (LoggedState World) SelCall where
  initial s := s.busCache = [] ∧ s.log = []
  step before call after := after = call.perform ports before

theorem selPort_inj {left right : Nat} (leftPort : left < 2 ^ 16) (rightPort : right < 2 ^ 16)
    (same : selPort left = selPort right) : left = right := by
  have values := congrArg UInt16.toNat same
  simp only [selPort, irDriveSel, UInt16.toNat_ofNat'] at values
  omega

/-- Every entry of the cache agrees with the log. -/
def LogCoherent (s : LoggedState World) : Prop := SelCoherent (fun bus => lastWritten (selPort bus) s.log) s.busCache

theorem SelCall.perform_coherent (call : SelCall) (coherent : LogCoherent before) :
    LogCoherent (call.perform ports before) ∧
      lastWritten (selPort call.busIoPort.toNat) (call.perform ports before).log = some call.selData.toNat ∧
      ∃ new, (call.perform ports before).log = before.log ++ new ∧
        ∀ access ∈ new, access.port = selPort call.busIoPort.toNat := by
  have port : call.busIoPort.toNat < 2 ^ 16 := call.busIoPort.toNat_lt
  have byte : call.selData.toNat % 2 ^ 8 = call.selData.toNat := Nat.mod_eq_of_lt call.selData.toNat_lt
  obtain ⟨cache, kept, ⟨skipped, known⟩ | written⟩ := selDrive_spec
    (AtaBus.logged ⟨ports, call.beyond⟩ call.busIoPort.toNat) call.devNum.toNat call.selData.toNat port coherent
  · have after : call.perform ports before = { before with busCache := cache } := skipped
    rw [after]
    refine ⟨?_, known, [], (List.append_nil _).symm, fun access none => absurd none List.not_mem_nil⟩
    rw [← known, Function.update_eq_self] at kept
    exact kept
  · have after : call.perform ports before = AtaState.portWr { before with busCache := cache }
        (AtaBus.logged ⟨ports, call.beyond⟩ call.busIoPort.toNat) (call.busIoPort.toNat + irDriveSel)
        call.selData.toNat .ps8 := written
    have log : (call.perform ports before).log =
        before.log ++ [.wrote call.busIoPort.toNat irDriveSel call.selData.toNat] := by
      rw [after, log_portWr8]
      rfl
    have last : ∀ bus < 2 ^ 16, lastWritten (selPort bus) (call.perform ports before).log =
        Function.update (fun bus => lastWritten (selPort bus) before.log) call.busIoPort.toNat
          (some call.selData.toNat) bus := by
      intro bus inRange
      rw [log, lastWritten_wrote, byte]
      by_cases here : bus = call.busIoPort.toNat
      · rw [here, Function.update_self]
        exact if_pos rfl
      · have apart : UInt16.ofNat (call.busIoPort.toNat + irDriveSel) ≠ selPort bus :=
          fun same => here (selPort_inj port inRange same).symm
        rw [Function.update_of_ne here, if_neg apart]
    refine ⟨?_, ?_, _, log, fun access new => ?_⟩
    · have cached : (call.perform ports before).busCache = cache := by rw [after, busCache_portWr]
      rw [LogCoherent, cached]
      exact kept.congr last
    · rw [last _ port, Function.update_self]
    · rw [List.mem_singleton.mp new]
      rfl

/-- After every call of `sel_drive` the drive-select register of the bus was last given the
value of the call, the cache agrees with the last writes, and nothing else was written. -/
theorem sel_drive_coherent (ports : Ports World) (reached : (selSystem ports).Reachable before) (call : SelCall) :
    lastWritten (selPort call.busIoPort.toNat) (call.perform ports before).log = some call.selData.toNat ∧
      (∀ info ∈ (call.perform ports before).busCache,
        lastWritten (selPort info.ioPort) (call.perform ports before).log = some info.selData) ∧
      (∃ new, (call.perform ports before).log = before.log ++ new ∧
        ∀ access ∈ new, access.port = selPort call.busIoPort.toNat) ∧
      ∀ other : UInt16, other ≠ call.busIoPort →
        lastWritten (selPort other.toNat) (call.perform ports before).log =
          lastWritten (selPort other.toNat) before.log := by
  have coherent : LogCoherent before := by
    apply reached.invariant LogCoherent
    · intro s ⟨noCache, noLog⟩
      have empty : ∀ info ∈ s.busCache, False := fun info member => by
        rw [noCache] at member
        exact List.not_mem_nil member
      exact ⟨by rw [noCache]; exact Nat.zero_le _, by rw [noCache]; exact List.nodup_nil,
        fun info member => (empty info member).elim, fun info member => (empty info member).elim⟩
    · intro before call after _ coherent performed
      rw [performed]
      exact (call.perform_coherent coherent).1
  obtain ⟨kept, last, new, log, named⟩ := @SelCall.perform_coherent World ports before call coherent
  refine ⟨last, kept.agrees, ⟨new, log, named⟩, fun other different => ?_⟩
  rw [log, lastWritten_append_of_absent]
  intro access member here
  have same := selPort_inj other.toNat_lt call.busIoPort.toNat_lt (here.symm.trans (named access member))
  exact absurd (UInt16.toNat_inj.mp same) different

/-- Ports on which nothing happens. -/
def quietPorts : Ports Unit where
  portRd8 _ world := (0, world)
  portRd16 _ world := (0, world)
  portRd32 _ world := (0, world)
  portWr8 _ _ world := world
  portWr16 _ _ world := world
  portWr32 _ _ world := world

def quietStart : LoggedState Unit := { busCache := [], world := ((), []) }

/-- A call for drive 1 of a bus, with the values of the call behind the array. -/
def selSecond (busIoPort : UInt16) : SelCall where
  busIoPort := busIoPort
  devNum := 1
  selData := 0xf0
  beyond := { ioPort := busIoPort.toNat, selDevNum := 1, selData := 0xf0 }

theorem sel_drive_coherent_fifthBus :
    lastWritten (selPort 0x150) ((selSecond 0x150).perform quietPorts ((selSecond 0x160).perform quietPorts
      ((selSecond 0x168).perform quietPorts ((selSecond 0x170).perform quietPorts
        ((selSecond 0x1f0).perform quietPorts quietStart))))).log = some 0xf0 :=
  (sel_drive_coherent quietPorts
    (.step (.step (.step (.step (.initial ⟨rfl, rfl⟩) rfl) rfl) rfl) rfl) (selSecond 0x150)).1

end Runs

end Bwuhos
