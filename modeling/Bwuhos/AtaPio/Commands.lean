import Bwuhos.AtaPio.Calls
import Mathlib.Data.List.Basic
import Mathlib.Data.List.Induction

namespace Bwuhos

open Bwuhos.Data

/-! # What the drive gets to see of a command

The command of a call goes to the drive that the drive-select register names at that point.
The register still holds what some earlier call put there if the cache let the write be
skipped, so both results are about runs of calls.
-/

/-- A list that has just one element of some kind behind `base` can be split there only in one way. -/
theorem append_cons_unique {Element : Type} {kind : Element → Prop} {base left right before after : List Element}
    {middle found : Element} (notLeft : ∀ element ∈ left, ¬kind element) (notRight : ∀ element ∈ right, ¬kind element)
    (same : base ++ left ++ middle :: right = before ++ found :: after) (late : base.length ≤ before.length)
    (isKind : kind found) : before = base ++ left := by
  have start := congrArg (List.take base.length) same
  rw [List.append_assoc, List.take_left, List.take_append_of_le_length late] at start
  have rest := congrArg (List.drop base.length) same
  rw [List.append_assoc, List.drop_left, List.drop_append_of_le_length late] at rest
  have only := (List.append_cons_inj_of_notMem (fun member => notLeft found member isKind)
    fun member => notRight found member isKind).mp rest
  calc before = before.take base.length ++ before.drop base.length := (List.take_append_drop _ _).symm
    _ = base ++ left := by rw [← start, ← only.1]

section Runs

variable {World : Type} {ports : Ports World} {under : AtaBus World} {s after : LoggedState World} {call : AtaCall}

theorem Returns.cached (returns : Returns s after call.bus) (cached : SelectsCached s) : SelectsCached after := by
  obtain ⟨words, reads⟩ := returns.reads
  obtain ⟨new, log, aside⟩ := readsOnly_aside reads
  exact cached.aside returns.cache log aside

theorem AtaCall.isRead_of_not_issues (idle : ¬call.Issues) :
    ∃ dev dst src nsector, call = .rd dev dst src nsector := by
  cases call with
  | get out busIoPort busCtlPort devNum => exact absurd trivial idle
  | id dev => exact absurd trivial idle
  | rd dev dst src nsector => exact ⟨dev, dst, src, nsector, rfl⟩

theorem AtaCall.issue_of_not_issues (idle : ¬call.Issues) : call.issue under s = s := by
  obtain ⟨dev, dst, src, nsector, rfl⟩ := AtaCall.isRead_of_not_issues idle
  have none : nsector = 0 ∨ nsector > maxSectors dev := by
    simp only [AtaCall.Issues] at idle
    omega
  exact if_pos none

/-- A call that returns leaves the cache in agreement with the drive-select registers. -/
theorem AtaCall.perform_cached (inRange : call.InRange) (cached : SelectsCached s) {fuel : Nat}
    (performed : call.perform under fuel s = .ok after) : SelectsCached after := by
  apply (AtaCall.perform_returns performed).cached
  by_cases issues : call.Issues
  · obtain ⟨selected, issued⟩ := @AtaCall.issue_spec World under s call inRange issues cached
    exact issued.cached
  · rw [AtaCall.issue_of_not_issues issues]
    exact cached

theorem ataSystem_cached (reached : (ataSystem ports).Reachable s) : SelectsCached s := by
  apply reached.invariant SelectsCached
  · intro s ⟨noCache, noLog⟩
    have empty : ∀ info ∈ s.busCache, False := fun info member => by
      rw [noCache] at member
      exact List.not_mem_nil member
    exact ⟨by rw [noCache]; exact Nat.zero_le _, by rw [noCache]; exact List.nodup_nil,
      fun info member => (empty info member).elim, fun info member => (empty info member).elim⟩
  · intro before step after _ cached ⟨inRange, fuel, performed⟩
    exact AtaCall.perform_cached inRange cached performed

end Runs

/-- A write to the command register of the bus that the call is for. -/
structure AtaCall.IsCommand (call : AtaCall) (access : PortAccess) : Prop where
  bus : access.bus = call.bus
  port : access.port = .ofNat (call.bus + irCmd)
  written : access.written ≠ none

/-- At each command in the log after `before`, the drive-select register names the drive that
the call was made for. -/
def CommandSelects (call : AtaCall) (before log : List PortAccess) : Prop :=
  ∀ earlier command later, log = earlier ++ command :: later → before.length ≤ earlier.length →
    call.IsCommand command →
    ∃ selected, lastSelect call.bus earlier = some selected ∧ (selected.testBit 4 = true ↔ call.devNum = 1)

section Selected

variable {World : Type} {ports : Ports World} {under : AtaBus World} {s : LoggedState World} {call : AtaCall}
  {log : List PortAccess} {words : Nat}

theorem identifySelect_bit {devNum : Nat} (devices : devNum ≤ 1) : (0xa ||| devNum).testBit 4 = false := by
  have number : devNum = 0 ∨ devNum = 1 := by omega
  rcases number with rfl | rfl
  · rfl
  · rfl

theorem readSelect_bit {dev : AtaPioDev} (devices : dev.devNum ≤ 1) :
    (readSelect dev).testBit 4 = true ↔ dev.devNum = 1 := by
  have number : dev.devNum = 0 ∨ dev.devNum = 1 := by omega
  rw [readSelect]
  rcases number with zero | one
  · rw [zero]
    split <;> decide
  · rw [one]
    split <;> decide

/-- Only a read puts the device number where the drive looks for it. -/
theorem AtaCall.selData_bit (devices : call.devNum ≤ 1) :
    (call.selData.testBit 4 = true ↔ call.devNum = 1) ↔
      (∃ dev dst src nsector, call = .rd dev dst src nsector) ∨ call.devNum = 0 := by
  cases call with
  | get out busIoPort busCtlPort devNum =>
      have bit := identifySelect_bit devices
      simp only [AtaCall.devNum] at bit devices
      simp only [AtaCall.selData, AtaCall.devNum, bit, reduceCtorEq, exists_false, false_or, false_iff]
      omega
  | id dev =>
      have bit := identifySelect_bit devices
      simp only [AtaCall.devNum] at bit devices
      simp only [AtaCall.selData, AtaCall.devNum, bit, reduceCtorEq, exists_false, false_or, false_iff]
      omega
  | rd dev dst src nsector => exact iff_of_true (readSelect_bit devices) (Or.inl ⟨dev, dst, src, nsector, rfl⟩)

theorem AtaCall.not_isCommand_of_read {access : PortAccess} (isRead : access.written = none) :
    ¬call.IsCommand access := fun command => command.written isRead

theorem commandSelects_idle (reads : ReadsOnly call.bus s.log log words) : CommandSelects call s.log log := by
  obtain ⟨new, rfl, onlyReads, _⟩ := reads
  intro earlier command later same late isCommand
  have inNew : command ∈ new := by
    have dropped := congrArg (List.drop s.log.length) same
    rw [List.drop_left, List.drop_append_of_le_length late] at dropped
    rw [dropped]
    simp
  exact absurd (onlyReads command inNew) isCommand.written

/-- The one command of a call comes when the call has asked for the drive and has written the address. -/
theorem Issued.command_iff {issued : LoggedState World} {selected : List PortAccess}
    (issue : Issued s issued call selected) (reads : ReadsOnly call.bus issued.log log words) :
    CommandSelects call s.log log ↔ (call.selData.testBit 4 = true ↔ call.devNum = 1) := by
  obtain ⟨new, same, onlyReads, _⟩ := reads
  obtain ⟨sel, drive, isSel⟩ := issue.drive
  have whole : log = s.log ++ (sel ++ call.writes) ++ .wrote call.bus irCmd call.command :: new := by
    rw [same, issue.log, drive]
    simp only [List.append_assoc, List.cons_append, List.nil_append]
  have value : lastSelect call.bus (s.log ++ (sel ++ call.writes)) = some call.selData := by
    rw [← List.append_assoc, ← drive, lastSelect_aside call.writes_address.aside]
    exact issue.select
  have commandPort : ∀ reg, reg < irCmd → UInt16.ofNat (call.bus + reg) ≠ .ofNat (call.bus + irCmd) := by
    intro reg below sameport
    have registers := congrArg (DriveRegs.regOf call.bus) sameport
    rw [DriveRegs.regOf_wrote (Nat.lt_trans below (by decide)), DriveRegs.regOf_wrote (by decide)] at registers
    omega
  have notCommand : ∀ access ∈ sel ++ call.writes, ¬call.IsCommand access := by
    intro access member isCommand
    rcases List.mem_append.mp member with inSel | inWrites
    · rcases isSel with rfl | rfl
      · exact List.not_mem_nil inSel
      · rw [List.mem_singleton.mp inSel] at isCommand
        exact commandPort irDriveSel (by decide) isCommand.port
    · obtain ⟨_, reg, below, port⟩ := call.writes_address access inWrites
      exact commandPort reg (Nat.lt_trans below (by decide)) (port.symm.trans isCommand.port)
  apply Iff.intro
  · intro selects
    obtain ⟨found, isFound, bit⟩ := selects _ _ _ whole (by simp) ⟨rfl, rfl, Option.some_ne_none _⟩
    rw [value] at isFound
    rw [Option.some.inj isFound]
    exact bit
  · intro bit earlier command later split late isCommand
    have before := append_cons_unique notCommand (fun access member => AtaCall.not_isCommand_of_read
      (onlyReads access member)) (whole.symm.trans split) late isCommand
    exact ⟨call.selData, before ▸ value, bit⟩

/-- In every run, a call for device 0 or 1 sends its command to the drive that it is for just
if it is a read or if that drive is drive 0, whatever was called before and whether or not
the drive ever answers. -/
theorem ata_commands_select_iff (ports : Ports World) (reached : (ataSystem ports).Reachable s) (beyond : BusInfo)
    (call : AtaCall) (inRange : call.InRange) (devices : call.devNum ≤ 1) :
    (CommandSelects call s.log (call.issue ⟨ports, beyond⟩ s).log ↔
        (∃ dev dst src nsector, call = .rd dev dst src nsector) ∨ call.devNum = 0) ∧
      ∀ fuel after, call.perform ⟨ports, beyond⟩ fuel s = .ok after →
        (CommandSelects call s.log after.log ↔
          (∃ dev dst src nsector, call = .rd dev dst src nsector) ∨ call.devNum = 0) := by
  have cached := ataSystem_cached reached
  have general : ∀ (log : List PortAccess) (words : Nat),
      ReadsOnly call.bus (call.issue ⟨ports, beyond⟩ s).log log words →
      (CommandSelects call s.log log ↔
        (∃ dev dst src nsector, call = .rd dev dst src nsector) ∨ call.devNum = 0) := by
    intro log words reads
    by_cases issues : call.Issues
    · obtain ⟨selected, issued⟩ := @AtaCall.issue_spec World ⟨ports, beyond⟩ s call inRange issues cached
      rw [issued.command_iff reads, AtaCall.selData_bit devices]
    · rw [AtaCall.issue_of_not_issues issues] at reads
      exact iff_of_true (commandSelects_idle reads) (Or.inl (AtaCall.isRead_of_not_issues issues))
  refine ⟨general _ 0 (.refl _), fun fuel after performed => ?_⟩
  obtain ⟨words, reads⟩ := (AtaCall.perform_returns performed).reads
  exact general _ words reads

end Selected

/-- Drive 1 of the first bus. -/
def secondDev : AtaPioDev := { wordDev with devNum := 1 }

/-- The first call is a read from drive 1. -/
theorem ata_commands_select_iff_second :
    CommandSelects (.rd secondDev none 5 1) quietStart.log
      ((AtaCall.rd secondDev none 5 1).issue ⟨quietPorts, ⟨0, 0, 0⟩⟩ quietStart).log :=
  (ata_commands_select_iff quietPorts (.initial ⟨rfl, rfl⟩) ⟨0, 0, 0⟩ (.rd secondDev none 5 1)
    ⟨by decide, by decide⟩ (by decide)).1.mpr (Or.inl ⟨secondDev, none, 5, 1, rfl⟩)

/-- The first call identifies drive 1, and its command goes to drive 0. -/
theorem ata_second_identify_strays :
    (ataSystem quietPorts).Reachable quietStart ∧
      ¬CommandSelects (.get secondDev 0x1f0 0x3f6 1) quietStart.log
        ((AtaCall.get secondDev 0x1f0 0x3f6 1).issue ⟨quietPorts, ⟨0, 0, 0⟩⟩ quietStart).log := by
  refine ⟨.initial ⟨rfl, rfl⟩, fun selects => ?_⟩
  obtain ⟨selected, last, bit⟩ := selects
    (.wrote 0x1f0 irDriveSel 0xb :: (clearWrites 0x1f0 .ps16 ++ clearWrites 0x1f0 .ps8))
    (.wrote 0x1f0 irCmd 0xec) [] rfl (by decide) ⟨rfl, rfl, Option.some_ne_none _⟩
  have value : (some 0xb : Option Nat) = some selected := by
    rw [← last]
    decide
  rw [← Option.some.inj value] at bit
  exact absurd (bit.mpr rfl) (by decide)

section Address

variable {World : Type} {ports : Ports World} {s : LoggedState World} {log : List PortAccess} {access : PortAccess}
  {bus reg value : Nat} {dev : AtaPioDev} {src count : Nat}

theorem lastSelect_snoc : lastSelect bus (log ++ [access]) =
    if access.bus = bus ∧ access.port = selPort bus then access.written.or (lastSelect bus log)
    else lastSelect bus log := by
  by_cases here : access.bus = bus
  · have kept : [access].filter (fun access => access.bus = bus) = [access] := by simp [here]
    rw [lastSelect, List.filter_append, kept, lastWritten_snoc, lastSelect]
    simp only [here, true_and]
  · have dropped : [access].filter (fun access => access.bus = bus) = [] := by simp [here]
    rw [lastSelect, List.filter_append, dropped, List.append_nil, lastSelect, if_neg fun both => here both.1]

theorem DriveRegs.write_driveSel (regs : DriveRegs) :
    (regs.write reg value).driveSel = if reg = irDriveSel then value else regs.driveSel := by
  by_cases isSel : reg = irDriveSel
  · rw [isSel]
    rfl
  · simp only [DriveRegs.write, apply_ite DriveRegs.driveSel, if_neg isSel, ite_self]

theorem regOf_eq_irDriveSel {port : UInt16} : DriveRegs.regOf bus port = irDriveSel ↔ port = selPort bus := by
  apply Iff.intro
  · intro isSel
    have distance : port - .ofNat bus = .ofNat irDriveSel := UInt16.toNat_inj.mp (isSel.trans rfl)
    rw [selPort, UInt16.ofNat_add, ← distance, UInt16.add_comm, UInt16.sub_add_cancel]
  · intro isSel
    rw [isSel]
    exact DriveRegs.regOf_wrote (by decide)

/-- The drive has in its drive-select register what the log says was last written to it. -/
theorem replay_driveSel (regs : DriveRegs) (last : lastSelect bus log = some value) :
    (regs.replay bus log).driveSel = value % 2 ^ 8 := by
  induction log using List.reverseRecOn generalizing value with
  | nil => cases last
  | append_singleton earlier access ih =>
      have step : regs.replay bus (earlier ++ [access]) = (regs.replay bus earlier).access bus access :=
        List.foldl_concat _ _ _ _
      rw [lastSelect_snoc] at last
      rw [step, DriveRegs.access]
      cases written : access.written with
      | none =>
          rw [written, Option.none_or, ite_self] at last
          exact ih last
      | some data =>
          rw [written, Option.some_or] at last
          by_cases here : access.bus = bus
          · simp only [here, if_true, DriveRegs.write_driveSel, regOf_eq_irDriveSel]
            by_cases isSel : access.port = selPort bus
            · rw [if_pos ⟨here, isSel⟩] at last
              rw [if_pos isSel, Option.some.inj last]
            · rw [if_neg fun both => isSel both.2] at last
              rw [if_neg isSel]
              exact ih last
          · rw [if_neg fun both => here both.1] at last
            simp only [here, if_false]
            exact ih last

/-- The low bits of the drive-select value, which take part in a 28-bit address, are zero. -/
theorem readSelect_low (dev : AtaPioDev) : readSelect dev % 2 ^ 4 = 0 := by
  have high : dev.devNum <<< 4 % 2 ^ 4 = 0 := by
    rw [Nat.shiftLeft_eq]
    exact Nat.mul_mod_left _ _
  have bits : ((if lba48 dev then 0xe0 else 0x40) ||| dev.devNum <<< 4) % 2 ^ 4 = 0 := by
    rw [Nat.or_mod_two_pow, high, Nat.or_zero]
    split <;> rfl
  rw [readSelect]
  omega

theorem readRegs_address {regs : DriveRegs} (low : regs.driveSel % 2 ^ 4 = 0)
    (inDisk : src < if lba48 dev then 2 ^ 48 else 2 ^ 28) :
    (readRegs dev src count regs).address (readCmd dev % 2 ^ 8) = if lba48 dev then src else src % 2 ^ 24 := by
  rw [readRegs, readCmd]
  split at inDisk
  · next wide =>
      simp only [if_pos wide, DriveRegs.address, Nat.shiftRight_eq_div_pow]
      rw [if_pos (by decide)]
      omega
  · next narrow =>
      simp only [if_neg narrow, DriveRegs.address, AddrReg.push, Nat.shiftRight_eq_div_pow, low]
      rw [if_neg (by decide)]
      omega

/-- In every run, a read asks the drive for the sectors from `src` on just if the device has
48-bit addresses or `src` fits in the three address registers. -/
theorem ataPioDevRd_address_iff (ports : Ports World) (reached : (ataSystem ports).Reachable s) (beyond : BusInfo)
    (regs : DriveRegs) (dev : AtaPioDev) (dst : Buffer) (src nsector : Nat)
    (inRange : (AtaCall.rd dev dst src nsector).InRange) (issues : (AtaCall.rd dev dst src nsector).Issues)
    (inDisk : src < if lba48 dev then 2 ^ 48 else 2 ^ 28) :
    DriveRegs.lastAddress dev.busIoPort regs ((AtaCall.rd dev dst src nsector).issue ⟨ports, beyond⟩ s).log = some src ↔
      lba48 dev ∨ src < 2 ^ 24 := by
  obtain ⟨selected, issued⟩ :=
    @AtaCall.issue_spec World ⟨ports, beyond⟩ s (.rd dev dst src nsector) inRange issues (ataSystem_cached reached)
  have registers : regs.replay dev.busIoPort (selected ++ (AtaCall.rd dev dst src nsector).writes) =
      readRegs dev src (wrapSectors dev nsector) (regs.replay dev.busIoPort selected) := by
    rw [DriveRegs.replay, List.foldl_append]
    exact replay_addrWrites _
  have low : (regs.replay dev.busIoPort selected).driveSel % 2 ^ 4 = 0 := by
    have select := replay_driveSel regs issued.select
    have zero := readSelect_low dev
    simp only [AtaCall.bus, AtaCall.selData] at select
    omega
  have command : DriveRegs.lastAddress dev.busIoPort regs
      ((AtaCall.rd dev dst src nsector).issue ⟨ports, beyond⟩ s).log =
        some ((regs.replay dev.busIoPort (selected ++ (AtaCall.rd dev dst src nsector).writes)).address
          (readCmd dev % 2 ^ 8)) := by
    rw [issued.log]
    exact DriveRegs.lastAddress_command
  rw [command, registers, readRegs_address low inDisk, Option.some_inj]
  by_cases wide : lba48 dev
  · rw [if_pos wide]
    exact iff_of_true rfl (Or.inl wide)
  · rw [if_neg wide]
    apply Iff.intro
    · intro same
      exact Or.inr (same ▸ Nat.mod_lt _ (by decide))
    · intro either
      exact Nat.mod_eq_of_lt (either.resolve_left wide)

end Address

/-- The first call reads sector 5 of a device without 48-bit addresses. -/
theorem ataPioDevRd_address_iff_five :
    DriveRegs.lastAddress 0x1f0 zeroRegs
      ((AtaCall.rd wordDev none 5 1).issue ⟨quietPorts, ⟨0, 0, 0⟩⟩ quietStart).log = some 5 :=
  (ataPioDevRd_address_iff quietPorts (.initial ⟨rfl, rfl⟩) ⟨0, 0, 0⟩ zeroRegs wordDev none 5 1
    ⟨by decide, by decide⟩ ⟨by decide, by decide⟩ (by decide)).mpr (Or.inr (by decide))

/-- The top bits of a 28-bit address are lost: the drive is asked for sector 0. -/
theorem ataPioDevRd_address_lost :
    (ataSystem quietPorts).Reachable quietStart ∧ ¬lba48 wordDev ∧ 0x1000000 < 2 ^ 28 ∧
      DriveRegs.lastAddress 0x1f0 zeroRegs
        ((AtaCall.rd wordDev none 0x1000000 1).issue ⟨quietPorts, ⟨0, 0, 0⟩⟩ quietStart).log = some 0 :=
  ⟨.initial ⟨rfl, rfl⟩, by decide, by decide, by decide +kernel⟩

end Bwuhos
