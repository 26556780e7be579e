import Bwuhos.AtaPio.Identify
import Bwuhos.AtaPio.Requests
import Bwuhos.AtaPio.Select

namespace Bwuhos

open Bwuhos.Data

/-! # Runs of calls on the devices of any number of buses

All three calls go through the selection cache, each with its own way to make up the value
for the drive-select register.
-/

inductive AtaCall where
  | get (out : AtaPioDev) (busIoPort busCtlPort devNum : Nat)
  | id (dev : AtaPioDev)
  | rd (dev : AtaPioDev) (dst : Buffer) (src nsector : Nat)

namespace AtaCall

/-- The bus that a call is for. -/
def bus : AtaCall → Nat
  | get _ busIoPort _ _ => busIoPort
  | id dev => dev.busIoPort
  | rd dev _ _ _ => dev.busIoPort

/-- The device number that a call is for. -/
def devNum : AtaCall → Nat
  | get _ _ _ devNum => devNum
  | id dev => dev.devNum
  | rd dev _ _ _ => dev.devNum

/-- The values that a `port_t` and a `uint8_t` can hold. -/
structure InRange (call : AtaCall) : Prop where
  bus : call.bus < 2 ^ 16
  devNum : call.devNum < 2 ^ 8

section

variable {World : Type}

/-- The part of a call up to its command; a read of no sector or of too many has none. -/
def issue (under : AtaBus World) (s : LoggedState World) : AtaCall → LoggedState World
  | get _ busIoPort _ devNum => issueGet (under.logged busIoPort) busIoPort devNum s
  | id dev => issueId (under.logged dev.busIoPort) dev s
  | rd dev _ src nsector =>
      if nsector = 0 ∨ nsector > maxSectors dev then s
      else issueRead (under.logged dev.busIoPort) dev src (wrapSectors dev nsector) s

/-- The state that a call leaves when it returns. -/
def perform (under : AtaBus World) (fuel : Nat) (s : LoggedState World) : AtaCall → Except Stop (LoggedState World)
  | get out busIoPort busCtlPort devNum =>
      (ataPioDevGet (under.logged busIoPort) fuel out busIoPort busCtlPort devNum s).map AtaGet.state
  | id dev => (ataPioDevId (under.logged dev.busIoPort) fuel dev s).map AtaId.state
  | rd dev dst src nsector => (ataPioDevRd (under.logged dev.busIoPort) dev fuel dst src nsector s).map AtaRd.state

end

end AtaCall

/-- The last value written to the drive-select register of a bus. -/
def lastSelect (bus : Nat) (log : List PortAccess) : Option Nat :=
  lastWritten (selPort bus) (log.filter fun access => access.bus = bus)

/-- The cache agrees with the drive-select registers of all buses. -/
def SelectsCached {World : Type} (s : LoggedState World) : Prop :=
  SelCoherent (fun bus => lastSelect bus s.log) s.busCache

/-- A call made in a machine whose memory behind `bus_cache` is arbitrary. -/
structure AtaStep where
  call : AtaCall
  beyond : BusInfo

/-- Calls in any order, from an empty cache on. -/
def ataSystem {World : Type} (ports : Ports World) : TransitionSystem (LoggedState World) AtaStep where
  initial s := s.busCache = [] ∧ s.log = []
  step before step after := step.call.InRange ∧ ∃ fuel, step.call.perform ⟨ports, step.beyond⟩ fuel before = .ok after

section Selects

variable {busIoPort other : Nat} {log more : List PortAccess}

/-- Accesses for one bus that leave its drive-select register alone. -/
def Aside (busIoPort : Nat) (more : List PortAccess) : Prop :=
  ∀ access ∈ more, access.written ≠ none → access.bus = busIoPort ∧ access.port ≠ selPort busIoPort

theorem lastSelect_aside (aside : Aside busIoPort more) (bus : Nat) :
    lastSelect bus (log ++ more) = lastSelect bus log := by
  rw [lastSelect, List.filter_append, lastWritten_append_of_absent, lastSelect]
  intro access member here
  obtain ⟨inMore, forBus⟩ := List.mem_filter.mp member
  by_contra written
  obtain ⟨same, elsewhere⟩ := aside access inMore written
  rw [← of_decide_eq_true forBus, same] at here
  exact elsewhere here

theorem lastSelect_wrote (value : Nat) :
    (fun bus => lastSelect bus (log ++ [.wrote busIoPort irDriveSel value])) =
      Function.update (fun bus => lastSelect bus log) busIoPort (some (value % 2 ^ 8)) := by
  funext bus
  by_cases here : bus = busIoPort
  · subst here
    rw [Function.update_self, lastSelect, List.filter_append]
    have kept : [PortAccess.wrote bus irDriveSel value].filter (fun access => access.bus = bus) =
        [.wrote bus irDriveSel value] := by simp [PortAccess.wrote]
    rw [kept, lastWritten_wrote]
    exact if_pos rfl
  · have dropped : [PortAccess.wrote busIoPort irDriveSel value].filter (fun access => access.bus = bus) = [] := by
      simp [PortAccess.wrote, Ne.symm here]
    rw [Function.update_of_ne here, lastSelect, List.filter_append, dropped, List.append_nil, lastSelect]

theorem readsOnly_aside {words : Nat} {after : List PortAccess} (reads : ReadsOnly busIoPort log after words) :
    ∃ new, after = log ++ new ∧ Aside busIoPort new := by
  obtain ⟨new, same, onlyReads, _⟩ := reads
  exact ⟨new, same, fun access member written => absurd (onlyReads access member) written⟩

theorem port_ne_selPort {reg : Nat} (inRange : reg < 2 ^ 16) (different : reg ≠ irDriveSel) :
    UInt16.ofNat (busIoPort + reg) ≠ selPort busIoPort := by
  intro same
  have values := congrArg (DriveRegs.regOf busIoPort) same
  rw [selPort, DriveRegs.regOf_wrote inRange, DriveRegs.regOf_wrote (by decide)] at values
  exact different values

end Selects

namespace AtaCall

/-- The value for the drive-select register that a call asks for. -/
def selData : AtaCall → Nat
  | get _ _ _ devNum => 0xa ||| devNum
  | id dev => 0xa ||| dev.devNum
  | rd dev _ _ _ => readSelect dev

/-- Whether the call has a command. -/
def Issues : AtaCall → Prop
  | rd dev _ _ nsector => nsector ≠ 0 ∧ nsector ≤ maxSectors dev
  | _ => True

def command : AtaCall → Nat
  | rd dev _ _ _ => readCmd dev
  | _ => 0xec

end AtaCall

def clearWrites (busIoPort : Nat) (size : PortSize) : List PortAccess :=
  [irSectorCnt, irSectorNum, irCylLow, irCylHigh].map fun reg => ⟨busIoPort, .ofNat (busIoPort + reg), size, some 0⟩

/-- The register writes between the selection of the drive and the command. -/
def AtaCall.writes : AtaCall → List PortAccess
  | get _ busIoPort _ _ => clearWrites busIoPort .ps16 ++ clearWrites busIoPort .ps8
  | id dev => clearWrites dev.busIoPort (if lba48 dev then .ps16 else .ps8)
  | rd dev _ src nsector =>
      (addrWrites dev src (wrapSectors dev nsector)).map fun write => .wrote dev.busIoPort write.1 write.2

section Issue

variable {World : Type} {under : AtaBus World} {s after : LoggedState World} {busIoPort devNum : Nat}
  {more : List PortAccess} {call : AtaCall}

/-- The accesses are for one bus, to registers below the drive-select register. -/
def AddressOnly (busIoPort : Nat) (log : List PortAccess) : Prop :=
  ∀ access ∈ log, access.bus = busIoPort ∧ ∃ reg < irDriveSel, access.port = .ofNat (busIoPort + reg)

theorem AddressOnly.aside (address : AddressOnly busIoPort more) : Aside busIoPort more := by
  intro access member _
  obtain ⟨forBus, reg, below, port⟩ := address access member
  refine ⟨forBus, ?_⟩
  rw [port]
  exact port_ne_selPort (Nat.lt_trans below (by decide)) (Nat.ne_of_lt below)

theorem clearWrites_address (size : PortSize) : AddressOnly busIoPort (clearWrites busIoPort size) := by
  intro access member
  obtain ⟨reg, isReg, rfl⟩ := List.mem_map.mp member
  refine ⟨rfl, reg, ?_, rfl⟩
  simp only [List.mem_cons, List.not_mem_nil, or_false, irSectorCnt, irSectorNum, irCylLow, irCylHigh] at isReg
  simp only [irDriveSel]
  omega

theorem AtaCall.writes_address (call : AtaCall) : AddressOnly call.bus call.writes := by
  cases call with
  | get out busIoPort busCtlPort devNum =>
      intro access member
      rcases List.mem_append.mp member with first | second
      · exact clearWrites_address _ access first
      · exact clearWrites_address _ access second
  | id dev => exact clearWrites_address _
  | rd dev dst src nsector =>
      intro access member
      obtain ⟨write, inWrites, rfl⟩ := List.mem_map.mp member
      exact ⟨rfl, write.1, addrWrites_registers write inWrites, rfl⟩

theorem clearAddr_log (size : PortSize) (narrow : size = .ps8 ∨ size = .ps16) :
    (clearAddr (under.logged busIoPort) busIoPort size s).log = s.log ++ clearWrites busIoPort size := by
  have one : ∀ (s : LoggedState World) (reg : Nat), (s.portWr (under.logged busIoPort) (busIoPort + reg) 0 size).log =
      s.log ++ [⟨busIoPort, .ofNat (busIoPort + reg), size, some 0⟩] := by
    intro s reg
    rcases narrow with rfl | rfl <;> rfl
  simp only [clearAddr, List.foldl_cons, List.foldl_nil, one, clearWrites, List.map_cons, List.map_nil,
    List.append_assoc, List.cons_append, List.nil_append]

theorem foldl_portWr_cache {plain : AtaBus World} (writes : List (Nat × Nat)) (s : AtaState World) :
    (writes.foldl (fun s write => s.portWr plain (busIoPort + write.1) write.2 .ps8) s).busCache = s.busCache := by
  induction writes generalizing s with
  | nil => rfl
  | cons write rest ih => rw [List.foldl_cons, ih, busCache_portWr]

theorem clearAddr_cache {plain : AtaBus World} {s : AtaState World} {size : PortSize} :
    (clearAddr plain busIoPort size s).busCache = s.busCache := by
  simp only [clearAddr, List.foldl_cons, List.foldl_nil, busCache_portWr]

theorem SelectsCached.aside (cached : SelectsCached s) (cache : after.busCache = s.busCache)
    (log : after.log = s.log ++ more) (aside : Aside busIoPort more) : SelectsCached after := by
  rw [SelectsCached, cache, log]
  exact SelCoherent.congr cached fun bus _ => lastSelect_aside aside bus

theorem selDrive_cached (selData : Nat) (port : busIoPort < 2 ^ 16) (byte : selData < 2 ^ 8)
    (cached : SelectsCached s) :
    SelectsCached (selDrive (under.logged busIoPort) busIoPort devNum selData s) ∧
      lastSelect busIoPort (selDrive (under.logged busIoPort) busIoPort devNum selData s).log = some selData := by
  obtain ⟨cache, kept, ⟨skipped, known⟩ | written⟩ :=
    selDrive_spec (under.logged busIoPort) devNum selData port cached
  · rw [skipped]
    rw [← known, Function.update_eq_self] at kept
    exact ⟨kept, known⟩
  · have log : (selDrive (under.logged busIoPort) busIoPort devNum selData s).log =
        s.log ++ [.wrote busIoPort irDriveSel selData] := by
      rw [written, log_portWr8]
      rfl
    have selects := @lastSelect_wrote busIoPort s.log selData
    rw [Nat.mod_eq_of_lt byte] at selects
    refine ⟨?_, ?_⟩
    · have same : (selDrive (under.logged busIoPort) busIoPort devNum selData s).busCache = cache := by
        rw [written, busCache_portWr]
      rw [SelectsCached, log, same, selects]
      exact kept
    · rw [log]
      exact (congrFun selects busIoPort).trans (Function.update_self _ _ _)

/-- What a call has done up to its command. -/
structure Issued (s after : LoggedState World) (call : AtaCall) (selected : List PortAccess) : Prop where
  log : after.log = selected ++ call.writes ++ [.wrote call.bus irCmd call.command]
  drive : ∃ sel, selected = s.log ++ sel ∧ (sel = [] ∨ sel = [.wrote call.bus irDriveSel call.selData])
  select : lastSelect call.bus selected = some call.selData
  cached : SelectsCached after

theorem AtaCall.issue_spec (inRange : call.InRange) (issues : call.Issues) (cached : SelectsCached s) :
    ∃ selected, Issued s (call.issue under s) call selected := by
  have aside : Aside call.bus (call.writes ++ [.wrote call.bus irCmd call.command]) := by
    intro access member written
    rcases List.mem_append.mp member with write | command
    · exact call.writes_address.aside access write written
    · rw [List.mem_singleton.mp command]
      exact ⟨rfl, port_ne_selPort (by decide) (by decide)⟩
  have byte : call.selData < 2 ^ 8 := by
    cases call with
    | get out busIoPort busCtlPort devNum => exact Nat.or_lt_two_pow (by decide) inRange.devNum
    | id dev => exact Nat.or_lt_two_pow (by decide) inRange.devNum
    | rd dev dst src nsector => exact Nat.mod_lt _ (by decide)
  obtain ⟨kept, select⟩ := @selDrive_cached World under s call.bus call.devNum call.selData inRange.bus byte cached
  obtain ⟨sel, drive, form⟩ := @selDrive_log World under s call.bus call.devNum call.selData
  have done : (call.issue under s).busCache =
        (selDrive (under.logged call.bus) call.bus call.devNum call.selData s).busCache ∧
      (call.issue under s).log = (selDrive (under.logged call.bus) call.bus call.devNum call.selData s).log ++
        (call.writes ++ [.wrote call.bus irCmd call.command]) := by
    cases call with
    | get out busIoPort busCtlPort devNum =>
        refine ⟨?_, ?_⟩
        · rw [AtaCall.issue, issueGet, busCache_portWr, clearAddr_cache, clearAddr_cache]
          rfl
        · rw [AtaCall.issue, issueGet, log_portWr8, clearAddr_log _ (Or.inl rfl), clearAddr_log _ (Or.inr rfl),
            List.append_assoc, List.append_assoc, AtaCall.writes, List.append_assoc]
          rfl
    | id dev =>
        refine ⟨?_, ?_⟩
        · rw [AtaCall.issue, issueId, busCache_portWr, clearAddr_cache]
          rfl
        · rw [AtaCall.issue, issueId, log_portWr8, clearAddr_log _ (by split <;> simp), List.append_assoc]
          rfl
    | rd dev dst src nsector =>
        have some : ¬(nsector = 0 ∨ nsector > maxSectors dev) := by
          have both := issues
          simp only [AtaCall.Issues] at both
          omega
        rw [AtaCall.issue, if_neg some]
        refine ⟨foldl_portWr_cache _ _, ?_⟩
        rw [issueRead_log, readWrites_eq]
        rfl
  refine ⟨_, ?_, ⟨sel, drive, form⟩, select, kept.aside done.1 done.2 aside⟩
  rw [done.2, List.append_assoc]

end Issue

section Returns

variable {World : Type} {under : AtaBus World} {s after : LoggedState World} {busIoPort fuel : Nat}
  {seen answer : Nat × (World × List PortAccess)} {call : AtaCall}

theorem pollWhile_log {again : Nat → Bool}
    (polled : pollWhile (under.logged busIoPort) busIoPort again fuel seen = .ok answer) :
    ReadsOnly busIoPort seen.2.2 answer.2.2 0 := by
  apply loop_partial (fun next : Nat × (World × List PortAccess) => ReadsOnly busIoPort seen.2.2 next.2.2 0)
    (fun answer : Nat × (World × List PortAccess) => ReadsOnly busIoPort seen.2.2 answer.2.2 0) ?_ ?_ (.refl _) polled
  · intro state next reads round
    have read := reads.trans (@portRd_status_log World under busIoPort state.2 irStatus)
    split at round
    · obtain rfl := Sum.inl.inj (Except.ok.inj round)
      exact read
    · cases round
  · intro state answer reads round
    split at round
    · cases round
    · obtain rfl := Sum.inr.inj (Except.ok.inj round)
      exact reads

theorem waitIdentify_log (waited : waitIdentify (under.logged busIoPort) busIoPort fuel seen = .ok answer) :
    ReadsOnly busIoPort seen.2.2 answer.2.2 0 := by
  obtain ⟨idle, busy, request⟩ := bind_eq_ok waited
  exact (pollWhile_log busy).trans (pollWhile_log request)

theorem readIdWords_log (count : Nat) (world : World × List PortAccess) :
    ReadsOnly busIoPort world.2 (readIdWords (under.logged busIoPort) busIoPort count world).2.2 count := by
  induction count generalizing world with
  | zero => exact .refl _
  | succ count ih =>
      have read := (@portRd_data_log World under busIoPort world).trans (ih _)
      rw [Nat.add_comm 1 count] at read
      exact read

theorem readSectors_cache {plain : AtaBus World} {dev : AtaPioDev} {count : Nat} {dst : Buffer} {s : AtaState World}
    {after : AtaRd World} (returned : readSectors plain dev fuel count dst s = .ok after) :
    after.state.busCache = s.busCache := by
  induction count generalizing dst s with
  | zero =>
      obtain rfl := Except.ok.inj returned
      rfl
  | succ count ih =>
      obtain ⟨⟨status, world⟩, _, rest⟩ := bind_eq_ok returned
      dsimp only at rest
      split at rest
      · obtain rfl := Except.ok.inj rest
        rfl
      · obtain ⟨_, _, sectors⟩ := bind_eq_ok rest
        have kept := ih sectors
        exact kept

/-- After its command a call only reads. -/
structure Returns (issued after : LoggedState World) (busIoPort : Nat) : Prop where
  cache : after.busCache = issued.busCache
  reads : ∃ words, ReadsOnly busIoPort issued.log after.log words

theorem ataPioDevGet_returns {out : AtaPioDev} {busCtlPort devNum : Nat} {got : AtaGet (World × List PortAccess)}
    (returned : ataPioDevGet (under.logged busIoPort) fuel out busIoPort busCtlPort devNum s = .ok got) :
    Returns (issueGet (under.logged busIoPort) busIoPort devNum s) got.state busIoPort := by
  have first := @portRd_status_log World under busIoPort
    (issueGet (under.logged busIoPort) busIoPort devNum s).world irStatus
  simp only [ataPioDevGet] at returned
  split at returned
  · obtain rfl := Except.ok.inj returned
    exact ⟨rfl, _, first⟩
  · obtain ⟨⟨status, world⟩, waited, rest⟩ := bind_eq_ok returned
    have waits := first.trans (waitIdentify_log waited)
    dsimp only at rest
    split at rest
    · obtain rfl := Except.ok.inj rest
      exact ⟨rfl, _, waits⟩
    · have words := waits.trans (@readIdWords_log World under _ 256 world)
      split at rest
      · obtain rfl := Except.ok.inj rest
        exact ⟨rfl, _, words⟩
      · obtain rfl := Except.ok.inj rest
        exact ⟨rfl, _, words⟩

theorem ataPioDevId_returns {dev : AtaPioDev} {got : AtaId (World × List PortAccess)}
    (returned : ataPioDevId (under.logged dev.busIoPort) fuel dev s = .ok got) :
    Returns (issueId (under.logged dev.busIoPort) dev s) got.state dev.busIoPort := by
  have first := @portRd_status_log World under dev.busIoPort
    (issueId (under.logged dev.busIoPort) dev s).world irStatus
  obtain ⟨⟨status, world⟩, waited, rest⟩ := bind_eq_ok returned
  have waits := first.trans (waitIdentify_log waited)
  dsimp only at rest
  split at rest
  · obtain rfl := Except.ok.inj rest
    exact ⟨rfl, _, waits⟩
  · obtain rfl := Except.ok.inj rest
    exact ⟨rfl, _, waits.trans (@readIdWords_log World under _ 256 world)⟩

/-- A call that returns has issued its command, if it has one, and then only reads. -/
theorem AtaCall.perform_returns (performed : call.perform under fuel s = .ok after) :
    Returns (call.issue under s) after call.bus := by
  cases call with
  | get out busIoPort busCtlPort devNum =>
      obtain ⟨got, returned, rfl⟩ := map_eq_ok performed
      exact ataPioDevGet_returns returned
  | id dev =>
      obtain ⟨got, returned, rfl⟩ := map_eq_ok performed
      exact ataPioDevId_returns returned
  | rd dev dst src nsector =>
      obtain ⟨got, returned, rfl⟩ := map_eq_ok performed
      rw [ataPioDevRd] at returned
      rw [AtaCall.issue]
      split at returned
      · next none =>
          obtain rfl := Except.ok.inj returned
          rw [if_pos (Or.inl none)]
          exact ⟨rfl, 0, .refl _⟩
      · next some =>
          split at returned
          · next many =>
              obtain rfl := Except.ok.inj returned
              rw [if_pos (Or.inr many)]
              exact ⟨rfl, 0, .refl _⟩
          · next few =>
              obtain ⟨words, reads, _⟩ := readSectors_log returned
              rw [if_neg fun either => either.elim some few]
              exact ⟨readSectors_cache returned, words, reads⟩

end Returns

end Bwuhos
