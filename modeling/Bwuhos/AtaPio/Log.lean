import Bwuhos.AtaPio

namespace Bwuhos

/-! # The port accesses of the ATA PIO driver

The machine keeps a log of the accesses made to its ports.  An access is made for one bus,
whose registers are told apart by their distance from the first port of the bus.
-/

structure PortAccess where
  bus : Nat
  port : UInt16
  size : PortSize
  /-- What is written, if it is not a read. -/
  written : Option Nat
deriving Repr, DecidableEq

section

variable {World : Type}

def Ports.logged (ports : Ports World) (bus : Nat) : Ports (World × List PortAccess) where
  portRd8 p world := ((ports.portRd8 p world.1).1, (ports.portRd8 p world.1).2, world.2 ++ [⟨bus, p, .ps8, none⟩])
  portRd16 p world := ((ports.portRd16 p world.1).1, (ports.portRd16 p world.1).2, world.2 ++ [⟨bus, p, .ps16, none⟩])
  portRd32 p world := ((ports.portRd32 p world.1).1, (ports.portRd32 p world.1).2, world.2 ++ [⟨bus, p, .ps32, none⟩])
  portWr8 p data world := (ports.portWr8 p data world.1, world.2 ++ [⟨bus, p, .ps8, some data.toNat⟩])
  portWr16 p data world := (ports.portWr16 p data world.1, world.2 ++ [⟨bus, p, .ps16, some data.toNat⟩])
  portWr32 p data world := (ports.portWr32 p data world.1, world.2 ++ [⟨bus, p, .ps32, some data.toNat⟩])

/-- The machine under the driver, with a log of the accesses made for a bus. -/
def AtaBus.logged (bus : AtaBus World) (busIoPort : Nat) : AtaBus (World × List PortAccess) where
  ports := bus.ports.logged busIoPort
  beyond := bus.beyond

abbrev LoggedState (World : Type) : Type := AtaState (World × List PortAccess)

def AtaState.log (s : LoggedState World) : List PortAccess := s.world.2

end

/-- A byte written to a register of a bus. -/
def PortAccess.wrote (bus reg data : Nat) : PortAccess := ⟨bus, .ofNat (bus + reg), .ps8, some (data % 2 ^ 8)⟩

def selPort (bus : Nat) : UInt16 := .ofNat (bus + irDriveSel)

/-- The last value that a list of accesses writes to a port. -/
def lastWritten (port : UInt16) (log : List PortAccess) : Option Nat :=
  (log.filterMap fun access => if access.port = port then access.written else none).getLast?

section

variable {World : Type} {bus : AtaBus World} {s : LoggedState World} {port : UInt16} {log more : List PortAccess}
  {access : PortAccess} {busIoPort reg data : Nat}

@[simp] theorem log_portWr8 : (s.portWr (bus.logged busIoPort) (busIoPort + reg) data .ps8).log =
    s.log ++ [.wrote busIoPort reg data] := rfl

@[simp] theorem busCache_portWr {plain : AtaBus World} {s : AtaState World} {p : Nat} {size : PortSize} :
    (s.portWr plain p data size).busCache = s.busCache := rfl

theorem lastWritten_snoc : lastWritten port (log ++ [access]) =
    if access.port = port then access.written.or (lastWritten port log) else lastWritten port log := by
  by_cases here : access.port = port
  · cases written : access.written with
    | none => simp [lastWritten, here, written]
    | some value => simp [lastWritten, here, written]
  · simp [lastWritten, here]

theorem lastWritten_wrote : lastWritten port (log ++ [.wrote busIoPort reg data]) =
    if UInt16.ofNat (busIoPort + reg) = port then some (data % 2 ^ 8) else lastWritten port log := by
  rw [lastWritten_snoc]
  rfl

theorem lastWritten_append_of_absent (absent : ∀ access ∈ more, access.port = port → access.written = none) :
    lastWritten port (log ++ more) = lastWritten port log := by
  have none : (more.filterMap fun access => if access.port = port then access.written else none) = [] := by
    rw [List.filterMap_eq_nil_iff]
    intro access member
    by_cases here : access.port = port
    · rw [if_pos here, absent access member here]
    · rw [if_neg here]
  rw [lastWritten, List.filterMap_append, none, List.append_nil, lastWritten]

end

end Bwuhos
