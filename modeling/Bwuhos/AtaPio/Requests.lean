import Bwuhos.AtaPio.Drive
import Bwuhos.AtaPio.Reads

namespace Bwuhos

open Bwuhos.Data

/-! # The words that a read requests, and those that it takes

A full count is passed on as 0, which the drive takes for the most sectors, and the loop
over the sectors for none.
-/

/-- The accesses added to a log are reads, and so many of them take a data word. -/
def ReadsOnly (bus : Nat) (before after : List PortAccess) (words : Nat) : Prop :=
  ∃ new, after = before ++ new ∧ (∀ access ∈ new, access.written = none) ∧ dataWords bus new = words

section Reads

variable {World : Type} {bus : AtaBus World} {dev : AtaPioDev} {before middle after : List PortAccess}
  {busIoPort words more : Nat}

theorem ReadsOnly.refl (log : List PortAccess) : ReadsOnly busIoPort log log 0 :=
  ⟨[], (List.append_nil _).symm, fun _ none => absurd none List.not_mem_nil, rfl⟩

theorem ReadsOnly.trans (first : ReadsOnly busIoPort before middle words)
    (second : ReadsOnly busIoPort middle after more) : ReadsOnly busIoPort before after (words + more) := by
  obtain ⟨new, rfl, reads, count⟩ := first
  obtain ⟨later, rfl, laterReads, laterCount⟩ := second
  refine ⟨new ++ later, List.append_assoc _ _ _, fun access member => ?_, ?_⟩
  · rcases List.mem_append.mp member with old | recent
    · exact reads access old
    · exact laterReads access recent
  · rw [dataWords_append, count, laterCount]

theorem portRd_status_log (world : World × List PortAccess) (reg : Nat) :
    ReadsOnly busIoPort world.2 (portRd (bus.logged busIoPort).ports (busIoPort + reg) .ps8 world).2.2 0 :=
  ⟨[⟨busIoPort, .ofNat (busIoPort + reg), .ps8, none⟩], rfl, by simp, by simp [dataWords]⟩

theorem portRd_data_log (world : World × List PortAccess) :
    ReadsOnly busIoPort world.2 (portRd (bus.logged busIoPort).ports (busIoPort + irData) .ps16 world).2.2 1 :=
  ⟨[⟨busIoPort, .ofNat (busIoPort + irData), .ps16, none⟩], rfl, by simp, by simp [dataWords]⟩

theorem pollStatus_log {fuel status : Nat} {world last : World × List PortAccess}
    (polled : pollStatus (bus.logged dev.busIoPort) dev fuel world = .ok (status, last)) :
    ReadsOnly dev.busIoPort world.2 last.2 0 := by
  apply loop_partial (fun next => ReadsOnly dev.busIoPort world.2 next.2 0)
    (fun answer : Nat × (World × List PortAccess) => ReadsOnly dev.busIoPort world.2 answer.2.2 0) ?_ ?_ (.refl _)
    polled
  · intro state next reads again
    have read := reads.trans (@portRd_status_log World bus dev.busIoPort state irStatus)
    dsimp only at again
    split at again
    · obtain rfl := Sum.inl.inj (Except.ok.inj again)
      exact read
    · cases again
  · intro state answer reads ends
    have read := reads.trans (@portRd_status_log World bus dev.busIoPort state irStatus)
    dsimp only at ends
    split at ends
    · cases ends
    · obtain rfl := Sum.inr.inj (Except.ok.inj ends)
      exact read

theorem readWords_log {count index : Nat} {dst filled : Buffer} {world last : World × List PortAccess}
    (transferred : readWords (bus.logged dev.busIoPort) dev count index dst world = .ok (filled, last)) :
    ReadsOnly dev.busIoPort world.2 last.2 count := by
  induction count generalizing index dst world with
  | zero =>
      obtain ⟨-, rfl⟩ := Prod.mk.inj (Except.ok.inj transferred)
      exact .refl _
  | succ count ih =>
      obtain ⟨stored, _, rest⟩ := bind_eq_ok transferred
      have read := (@portRd_data_log World bus dev.busIoPort world).trans (ih rest)
      rwa [Nat.add_comm] at read

/-- A read that returns 0 takes the words of all its sectors; any read only reads. -/
theorem readSectors_log {fuel count : Nat} {dst : Buffer} {s : LoggedState World}
    {after : AtaRd (World × List PortAccess)}
    (returned : readSectors (bus.logged dev.busIoPort) dev fuel count dst s = .ok after) :
    ∃ words, ReadsOnly dev.busIoPort s.log after.state.log words ∧
      (after.ret = 0 → words = count * (dev.sectorSize / 2)) := by
  induction count generalizing dst s with
  | zero =>
      obtain rfl := Except.ok.inj returned
      exact ⟨0, .refl _, fun _ => (Nat.zero_mul _).symm⟩
  | succ count ih =>
      obtain ⟨⟨status, world⟩, polled, rest⟩ := bind_eq_ok returned
      have polls := pollStatus_log polled
      dsimp only at rest
      split at rest
      · obtain rfl := Except.ok.inj rest
        exact ⟨0, polls, fun success => absurd success (by simp)⟩
      · obtain ⟨⟨filled, next⟩, transferred, sectors⟩ := bind_eq_ok rest
        obtain ⟨words, reads, all⟩ := ih sectors
        refine ⟨_, (polls.trans (readWords_log transferred)).trans reads, fun success => ?_⟩
        rw [all success, Nat.succ_mul, Nat.zero_add, Nat.add_comm]

end Reads

section Command

variable {World : Type} {bus : AtaBus World} {dev : AtaPioDev} {s : LoggedState World} {src count : Nat}

/-- The value for the drive-select register that `ata_pio_dev_rd` asks for. -/
def readSelect (dev : AtaPioDev) : Nat := ((if lba48 dev then 0xe0 else 0x40) ||| dev.devNum <<< 4) % 2 ^ 8

def readWrites (dev : AtaPioDev) (src count : Nat) : List PortAccess :=
  (readCommand dev src count).map fun write => .wrote dev.busIoPort write.1 write.2

theorem foldl_portWr_log {busIoPort : Nat} (writes : List (Nat × Nat)) (s : LoggedState World) :
    (writes.foldl (fun s write => s.portWr (bus.logged busIoPort) (busIoPort + write.1) write.2 .ps8) s).log =
      s.log ++ writes.map fun write => .wrote busIoPort write.1 write.2 := by
  induction writes generalizing s with
  | nil => exact (List.append_nil _).symm
  | cons write rest ih =>
      rw [List.foldl_cons, ih, log_portWr8, List.map_cons, List.append_assoc]
      rfl

theorem issueRead_log : (issueRead (bus.logged dev.busIoPort) dev src count s).log =
    (selDrive (bus.logged dev.busIoPort) dev.busIoPort dev.devNum (readSelect dev) s).log ++
      readWrites dev src count :=
  foldl_portWr_log _ _

theorem selDrive_log {busIoPort devNum selData : Nat} :
    ∃ sel, (selDrive (bus.logged busIoPort) busIoPort devNum selData s).log = s.log ++ sel ∧
      (sel = [] ∨ sel = [.wrote busIoPort irDriveSel selData]) := by
  simp only [selDrive]
  split
  · exact ⟨[], (List.append_nil _).symm, Or.inl rfl⟩
  · split
    · exact ⟨_, log_portWr8, Or.inr rfl⟩
    · split
      · refine ⟨[.wrote busIoPort irDriveSel selData], ?_, Or.inr rfl⟩
        rw [log_portWr8]
        split <;> rfl
      · exact ⟨[], (List.append_nil _).symm, Or.inl rfl⟩

theorem dataWords_readWrites : dataWords dev.busIoPort (readWrites dev src count) = 0 := by
  apply dataWords_writes
  intro access member
  obtain ⟨write, _, rfl⟩ := List.mem_map.mp member
  exact Option.some_ne_none _

/-- The register writes of a read command before the command itself. -/
def addrWrites (dev : AtaPioDev) (src count : Nat) : List (Nat × Nat) :=
  if lba48 dev then
    [(irSectorCnt, count >>> 8), (irSectorNum, src >>> 24), (irCylLow, src >>> 32), (irCylHigh, src >>> 40),
      (irSectorCnt, count), (irSectorNum, src), (irCylLow, src >>> 8), (irCylHigh, src >>> 16)]
  else [(irSectorCnt, count), (irSectorNum, src), (irCylLow, src >>> 8), (irCylHigh, src >>> 16)]

def readCmd (dev : AtaPioDev) : Nat := if lba48 dev then cmdReadExt else cmdRead

theorem readCommand_eq : readCommand dev src count = addrWrites dev src count ++ [(irCmd, readCmd dev)] := by
  rw [readCommand, addrWrites, readCmd]
  split <;> rfl

theorem addrWrites_registers : ∀ write ∈ addrWrites dev src count, write.1 < irDriveSel := by
  intro write member
  have register : write.1 ∈ (addrWrites dev src count).map Prod.fst := List.mem_map_of_mem member
  rw [addrWrites] at register
  split at register
  all_goals
    simp only [List.map_cons, List.map_nil, List.mem_cons, List.not_mem_nil, or_false] at register
    simp only [irSectorCnt, irSectorNum, irCylLow, irCylHigh, irDriveSel] at register ⊢
    omega

theorem addrWrites_below_command : ∀ write ∈ addrWrites dev src count, write.1 < irCmd :=
  fun write member => Nat.lt_succ_of_lt (addrWrites_registers write member)

theorem readWrites_eq : readWrites dev src count =
    ((addrWrites dev src count).map fun write => .wrote dev.busIoPort write.1 write.2) ++
      [.wrote dev.busIoPort irCmd (readCmd dev)] := by
  rw [readWrites, readCommand_eq, List.map_append]
  rfl

/-- The registers that a drive has when it gets the command. -/
def readRegs (dev : AtaPioDev) (src count : Nat) (regs : DriveRegs) : DriveRegs :=
  if lba48 dev then
    { regs with
      sectorCnt := ⟨(count >>> 8) % 2 ^ 8, count % 2 ^ 8⟩
      sectorNum := ⟨(src >>> 24) % 2 ^ 8, src % 2 ^ 8⟩
      cylLow := ⟨(src >>> 32) % 2 ^ 8, (src >>> 8) % 2 ^ 8⟩
      cylHigh := ⟨(src >>> 40) % 2 ^ 8, (src >>> 16) % 2 ^ 8⟩ }
  else
    { regs with
      sectorCnt := regs.sectorCnt.push (count % 2 ^ 8)
      sectorNum := regs.sectorNum.push (src % 2 ^ 8)
      cylLow := regs.cylLow.push ((src >>> 8) % 2 ^ 8)
      cylHigh := regs.cylHigh.push ((src >>> 16) % 2 ^ 8) }

theorem replay_addrWrites (regs : DriveRegs) :
    regs.replay dev.busIoPort ((addrWrites dev src count).map fun write => .wrote dev.busIoPort write.1 write.2) =
      readRegs dev src count regs := by
  rw [(DriveRegs.requested_registers addrWrites_below_command).2, addrWrites, readRegs]
  split <;> rfl

/-- The command asks for the count, and for the most sectors where it is 0. -/
theorem requested_readWrites (regs : DriveRegs) (bounded : count < maxSectors dev) :
    DriveRegs.requested dev.busIoPort regs (readWrites dev src count) =
      if count = 0 then maxSectors dev else count := by
  have command : DriveRegs.requested dev.busIoPort (readRegs dev src count regs)
      [.wrote dev.busIoPort irCmd (readCmd dev)] = (readRegs dev src count regs).sectors (readCmd dev % 2 ^ 8) := by
    rw [DriveRegs.requested, DriveRegs.requests_wrote (by decide), if_pos rfl]
    rfl
  rw [readWrites_eq, DriveRegs.requested_append, (DriveRegs.requested_registers addrWrites_below_command).1,
    replay_addrWrites, command, Nat.zero_add, readRegs, readCmd, maxSectors]
  rw [maxSectors] at bounded
  split at bounded
  · next wide =>
      have bytes : 2 ^ 8 * (count >>> 8 % 2 ^ 8) + count % 2 ^ 8 = count := by
        rw [Nat.shiftRight_eq_div_pow]
        omega
      simp only [if_pos wide]
      rw [DriveRegs.sectors, if_pos (by decide), bytes]
      rfl
  · next narrow =>
      simp only [if_neg narrow]
      rw [DriveRegs.sectors, if_neg (by decide), if_pos (by decide), AddrReg.push, Nat.mod_eq_of_lt (by omega)]
      rfl

end Command

section Words

variable {World : Type} {bus : AtaBus World} {dev : AtaPioDev} {dst : Buffer} {src nsector fuel : Nat}
  {s : LoggedState World} {after : AtaRd (World × List PortAccess)}

theorem wrapSectors_lt (bounded : nsector ≤ maxSectors dev) : wrapSectors dev nsector < maxSectors dev := by
  rw [wrapSectors]
  split
  · exact maxSectors_pos dev
  · next different => exact Nat.lt_of_le_of_ne bounded different

/-- What a successful read of some sectors takes, and what it has asked for. -/
theorem ataPioDevRd_log (regs : DriveRegs) (positive : nsector ≠ 0) (bounded : nsector ≤ maxSectors dev)
    (start : s.log = [])
    (returned : ataPioDevRd (bus.logged dev.busIoPort) dev fuel dst src nsector s = .ok after)
    (success : after.ret = 0) :
    dataWords dev.busIoPort after.state.log = wrapSectors dev nsector * (dev.sectorSize / 2) ∧
      DriveRegs.requested dev.busIoPort regs after.state.log = nsector := by
  rw [ataPioDevRd, if_neg positive, if_neg (Nat.not_lt.mpr bounded)] at returned
  obtain ⟨words, ⟨reads, log, onlyReads, count⟩, all⟩ := readSectors_log returned
  obtain ⟨sel, selected, writes⟩ := @selDrive_log World bus s dev.busIoPort dev.devNum (readSelect dev)
  rw [issueRead_log, selected, start, List.nil_append] at log
  have selWords : dataWords dev.busIoPort sel = 0 := by
    rcases writes with rfl | rfl
    · rfl
    · exact dataWords_writes fun access member => by
        rw [List.mem_singleton.mp member]
        exact Option.some_ne_none _
  have selRequests : DriveRegs.requested dev.busIoPort regs sel = 0 := by
    rcases writes with rfl | rfl
    · rfl
    · rw [DriveRegs.requested, DriveRegs.requests_wrote (by decide), if_neg (by decide)]
      rfl
  rw [log]
  refine ⟨?_, ?_⟩
  · rw [dataWords_append, dataWords_append, selWords, dataWords_readWrites, count, all success, Nat.zero_add]
  · rw [DriveRegs.requested_append, DriveRegs.requested_append, selRequests, DriveRegs.requested_reads onlyReads,
      requested_readWrites _ (wrapSectors_lt bounded), wrapSectors, Nat.zero_add, Nat.add_zero]
    by_cases most : nsector = maxSectors dev
    · rw [if_pos most, if_pos rfl, most]
    · rw [if_neg most, if_neg positive]

/-- If the call returns 0, it has taken all the words of the sectors that it asked for. -/
def TakesAllWords (bus : AtaBus World) (dev : AtaPioDev) (regs : DriveRegs) (dst : Buffer) (src nsector : Nat)
    (cache : List BusInfo) (world : World) : Prop :=
  ∀ fuel after, ataPioDevRd (bus.logged dev.busIoPort) dev fuel dst src nsector
      { busCache := cache, world := (world, []) } = .ok after → after.ret = 0 →
    dataWords dev.busIoPort after.state.log =
      dev.sectorSize / 2 * DriveRegs.requested dev.busIoPort regs after.state.log

/-- No word is left in the device unless the count is the one that wraps to 0. -/
theorem ataPioDevRd_takes_words_iff (bus : AtaBus World) (dev : AtaPioDev) (regs : DriveRegs) (dst : Buffer)
    (src nsector : Nat) (cache : List BusInfo) (world : World) (bounded : nsector ≤ maxSectors dev) :
    TakesAllWords bus dev regs dst src nsector cache world ↔ nsector ≠ maxSectors dev ∨ dev.sectorSize < 2 := by
  have maxPositive := maxSectors_pos dev
  apply Iff.intro
  · intro takes
    apply or_iff_not_imp_left.mpr
    intro most
    have full : nsector = maxSectors dev := not_not.mp most
    have positive : nsector ≠ 0 := by omega
    have wrapped : wrapSectors dev nsector = 0 := if_pos full
    have returned : ∃ issued, ataPioDevRd (bus.logged dev.busIoPort) dev 0 dst src nsector
        { busCache := cache, world := (world, []) } = .ok { ret := 0, dst, state := issued } := by
      refine ⟨issueRead (bus.logged dev.busIoPort) dev src 0 { busCache := cache, world := (world, []) }, ?_⟩
      simp only [ataPioDevRd, if_neg positive, if_neg (Nat.not_lt.mpr bounded), wrapped, readSectors]
    obtain ⟨issued, returned⟩ := returned
    obtain ⟨words, requested⟩ := ataPioDevRd_log regs positive bounded rfl returned rfl
    have equal := takes 0 _ returned rfl
    rw [words, requested, wrapped, Nat.zero_mul] at equal
    have half := (Nat.mul_eq_zero.mp equal.symm).resolve_right positive
    omega
  · intro holds fuel after returned success
    by_cases positive : nsector = 0
    · rw [ataPioDevRd, if_pos positive] at returned
      obtain rfl := Except.ok.inj returned
      exact (Nat.mul_zero _).symm
    · obtain ⟨words, requested⟩ := ataPioDevRd_log regs positive bounded rfl returned success
      rw [words, requested, Nat.mul_comm]
      rcases holds with fewer | small
      · rw [wrapSectors, if_neg fewer]
      · rw [Nat.div_eq_of_lt small, Nat.zero_mul, Nat.zero_mul]

end Words

def zeroRegs : DriveRegs where
  sectorCnt := ⟨0, 0⟩
  sectorNum := ⟨0, 0⟩
  cylLow := ⟨0, 0⟩
  cylHigh := ⟨0, 0⟩
  driveSel := 0

/-- A read of three sectors of the disk of words. -/
theorem ataPioDevRd_takes_words_iff_three :
    TakesAllWords wordBus wordDev zeroRegs (some [0, 0]) 3 3 [] { count := 0, num := 0, queue := [] } :=
  (ataPioDevRd_takes_words_iff wordBus wordDev zeroRegs (some [0, 0]) 3 3 [] { count := 0, num := 0, queue := [] }
    (by decide)).mpr (Or.inl (by decide))

/-- A read of 256 sectors takes no word, and leaves all of them in the device. -/
theorem ataPioDevRd_words_left :
    (ataPioDevRd (wordBus.logged 0x1f0) wordDev 1 (some (List.replicate 512 0)) 0 256
      { busCache := [], world := ({ count := 0, num := 0, queue := [] }, []) }).toOption.map
        (fun after => (after.ret, dataWords 0x1f0 after.state.log,
          DriveRegs.requested 0x1f0 zeroRegs after.state.log, after.state.world.1.queue.length)) =
      some (0, 0, 256, 256) := by
  decide +kernel

end Bwuhos
