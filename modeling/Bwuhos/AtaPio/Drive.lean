import Bwuhos.AtaPio.Log

namespace Bwuhos

/-! # What a drive makes of the register writes

The address and sector count registers are one byte wide.  A drive keeps the byte that was
in such a register before the last write, for the commands with 48-bit addresses.
-/

structure AddrReg where
  previous : Nat
  current : Nat

def AddrReg.push (reg : AddrReg) (value : Nat) : AddrReg := ⟨reg.current, value⟩

structure DriveRegs where
  sectorCnt : AddrReg
  sectorNum : AddrReg
  cylLow : AddrReg
  cylHigh : AddrReg
  driveSel : Nat

def cmdRead : Nat := 0x20

def cmdReadExt : Nat := 0x24

namespace DriveRegs

def write (regs : DriveRegs) (reg value : Nat) : DriveRegs :=
  if reg = irSectorCnt then { regs with sectorCnt := regs.sectorCnt.push value }
  else if reg = irSectorNum then { regs with sectorNum := regs.sectorNum.push value }
  else if reg = irCylLow then { regs with cylLow := regs.cylLow.push value }
  else if reg = irCylHigh then { regs with cylHigh := regs.cylHigh.push value }
  else if reg = irDriveSel then { regs with driveSel := value }
  else regs

/-- The sectors that a command asks for.  A count of 0 stands for the most. -/
def sectors (regs : DriveRegs) (command : Nat) : Nat :=
  if command = cmdReadExt then
    if 2 ^ 8 * regs.sectorCnt.previous + regs.sectorCnt.current = 0 then 2 ^ 16
    else 2 ^ 8 * regs.sectorCnt.previous + regs.sectorCnt.current
  else if command = cmdRead then if regs.sectorCnt.current = 0 then 2 ^ 8 else regs.sectorCnt.current
  else 0

/-- The address of the first sector that a command asks for. -/
def address (regs : DriveRegs) (command : Nat) : Nat :=
  let low := regs.sectorNum.current + 2 ^ 8 * regs.cylLow.current + 2 ^ 16 * regs.cylHigh.current
  if command = cmdReadExt then
    low + 2 ^ 24 * regs.sectorNum.previous + 2 ^ 32 * regs.cylLow.previous + 2 ^ 40 * regs.cylHigh.previous
  else low + 2 ^ 24 * (regs.driveSel % 2 ^ 4)

/-- The register of the bus that a port is. -/
def regOf (bus : Nat) (port : UInt16) : Nat := (port - .ofNat bus).toNat

def access (regs : DriveRegs) (bus : Nat) (access : PortAccess) : DriveRegs :=
  match access.written with
  | none => regs
  | some value => if access.bus = bus then regs.write (regOf bus access.port) (value % 2 ^ 8) else regs

/-- The registers after the accesses of a log. -/
def replay (regs : DriveRegs) (bus : Nat) (log : List PortAccess) : DriveRegs :=
  log.foldl (fun regs access => regs.access bus access) regs

/-- The sectors that an access asks for, which is none unless it is a command. -/
def requests (regs : DriveRegs) (bus : Nat) (access : PortAccess) : Nat :=
  match access.written with
  | none => 0
  | some value => if access.bus = bus ∧ regOf bus access.port = irCmd then regs.sectors value else 0

/-- The sectors that the commands of a log ask for. -/
def requested (bus : Nat) : DriveRegs → List PortAccess → Nat
  | _, [] => 0
  | regs, access :: rest => regs.requests bus access + requested bus (regs.access bus access) rest

/-- The address that the last command of a log asks for. -/
def lastAddress (bus : Nat) : DriveRegs → List PortAccess → Option Nat
  | _, [] => none
  | regs, access :: rest =>
      (lastAddress bus (regs.access bus access) rest).or
        (match access.written with
        | none => none
        | some value =>
            if access.bus = bus ∧ regOf bus access.port = irCmd then some (regs.address value) else none)

end DriveRegs

/-- The number of words that a log reads from the data register of a bus. -/
def dataWords (bus : Nat) (log : List PortAccess) : Nat :=
  log.countP fun access => access.written = none ∧ access.bus = bus ∧ access.port = .ofNat (bus + irData) ∧
    access.size = .ps16

section Writes

variable {bus reg value : Nat} {regs : DriveRegs} {log more : List PortAccess} {access : PortAccess}

namespace DriveRegs

theorem regOf_wrote (inRange : reg < 2 ^ 16) : regOf bus (.ofNat (bus + reg)) = reg := by
  rw [regOf, UInt16.ofNat_add, UInt16.add_comm, UInt16.add_sub_cancel]
  exact UInt16.toNat_ofNat_of_lt inRange

theorem access_wrote (inRange : reg < 2 ^ 16) :
    regs.access bus (.wrote bus reg value) = regs.write reg (value % 2 ^ 8) := by
  have written : regs.access bus (.wrote bus reg value) =
      if bus = bus then regs.write (regOf bus (.ofNat (bus + reg))) (value % 2 ^ 8 % 2 ^ 8) else regs := rfl
  rw [written, if_pos rfl, regOf_wrote inRange, Nat.mod_mod]

theorem access_read (isRead : access.written = none) : regs.access bus access = regs := by
  rw [DriveRegs.access, isRead]

theorem requests_wrote (inRange : reg < 2 ^ 16) : regs.requests bus (.wrote bus reg value) =
    if reg = irCmd then regs.sectors (value % 2 ^ 8) else 0 := by
  have written : regs.requests bus (.wrote bus reg value) =
      if bus = bus ∧ regOf bus (.ofNat (bus + reg)) = irCmd then regs.sectors (value % 2 ^ 8) else 0 := rfl
  rw [written, regOf_wrote inRange]
  simp only [true_and]

theorem requested_append : requested bus regs (log ++ more) =
    requested bus regs log + requested bus (regs.replay bus log) more := by
  induction log generalizing regs with
  | nil => simp [requested, replay]
  | cons access rest ih =>
      rw [List.cons_append, requested, ih, requested, Nat.add_assoc]
      rfl

theorem requested_reads (reads : ∀ access ∈ log, access.written = none) : requested bus regs log = 0 := by
  induction log with
  | nil => rfl
  | cons first rest ih =>
      have isRead := reads first List.mem_cons_self
      rw [requested, access_read isRead, ih fun access member => reads access (List.mem_cons_of_mem _ member), requests,
        isRead]

/-- Writes to the registers other than the command register ask for nothing. -/
theorem requested_registers {writes : List (Nat × Nat)} (registers : ∀ write ∈ writes, write.1 < irCmd) :
    requested bus regs (writes.map fun write => .wrote bus write.1 write.2) = 0 ∧
      regs.replay bus (writes.map fun write => .wrote bus write.1 write.2) =
        writes.foldl (fun regs write => regs.write write.1 (write.2 % 2 ^ 8)) regs := by
  induction writes generalizing regs with
  | nil => exact ⟨rfl, rfl⟩
  | cons write rest ih =>
      have below := registers write List.mem_cons_self
      have inRange : write.1 < 2 ^ 16 := Nat.lt_trans below (by decide)
      obtain ⟨none, replayed⟩ := @ih (regs.write write.1 (write.2 % 2 ^ 8))
        fun other member => registers other (List.mem_cons_of_mem _ member)
      refine ⟨?_, ?_⟩
      · rw [List.map_cons, requested, requests_wrote inRange, if_neg (Nat.ne_of_lt below), access_wrote inRange, none]
      · rw [List.map_cons, replay, List.foldl_cons, access_wrote inRange]
        exact replayed

theorem lastAddress_command :
    lastAddress bus regs (log ++ [.wrote bus irCmd value]) =
      some ((regs.replay bus log).address (value % 2 ^ 8)) := by
  induction log generalizing regs with
  | nil =>
      have command : regOf bus (.ofNat (bus + irCmd)) = irCmd := regOf_wrote (by decide)
      change (none : Option Nat).or (if bus = bus ∧ regOf bus (.ofNat (bus + irCmd)) = irCmd then
        some (regs.address (value % 2 ^ 8)) else none) = _
      rw [command]
      exact if_pos ⟨rfl, rfl⟩
  | cons first rest ih =>
      rw [List.cons_append, lastAddress, ih, Option.some_or]
      rfl

end DriveRegs

theorem dataWords_append : dataWords bus (log ++ more) = dataWords bus log + dataWords bus more := List.countP_append

theorem dataWords_writes (writes : ∀ access ∈ log, access.written ≠ none) : dataWords bus log = 0 := by
  rw [dataWords, List.countP_eq_zero]
  intro access member isWord
  exact writes access member (of_decide_eq_true isWord).1

end Writes

end Bwuhos
