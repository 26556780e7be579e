import Bwuhos.AtaPio

namespace Bwuhos

open Bwuhos.Data

/-! # Identifying a device

`ata_pio_dev_get` and `ata_pio_dev_id`, without the mutex, the delays and the messages.
-/

def sDrq : Nat := 0x8

/-- What `ata_pio_dev_get` returns, and `*out` afterwards. -/
structure AtaGet (World : Type) where
  ret : Nat
  out : AtaPioDev
  state : AtaState World

/-- What `ata_pio_dev_id` returns, and the words at `out_id` if it has written them. -/
structure AtaId (World : Type) where
  ret : Nat
  outId : List Nat
  state : AtaState World

section

variable {World : Type}

/-- Write zero to the address registers of a bus. -/
def clearAddr (bus : AtaBus World) (busIoPort : Nat) (size : PortSize) (s : AtaState World) : AtaState World :=
  [irSectorCnt, irSectorNum, irCylLow, irCylHigh].foldl (fun s reg => s.portWr bus (busIoPort + reg) 0 size) s

/-- `ata_pio_dev_get` up to the IDENTIFY command. -/
def issueGet (bus : AtaBus World) (busIoPort devNum : Nat) (s : AtaState World) : AtaState World :=
  let selected := selDrive bus busIoPort devNum (0xa ||| devNum) s
  (clearAddr bus busIoPort .ps8 (clearAddr bus busIoPort .ps16 selected)).portWr bus (busIoPort + irCmd) 0xec .ps8

/-- `ata_pio_dev_id` up to the IDENTIFY command. -/
def issueId (bus : AtaBus World) (dev : AtaPioDev) (s : AtaState World) : AtaState World :=
  let selected := selDrive bus dev.busIoPort dev.devNum (0xa ||| dev.devNum) s
  (clearAddr bus dev.busIoPort (if lba48 dev then .ps16 else .ps8) selected).portWr bus (dev.busIoPort + irCmd) 0xec
    .ps8

/-- Read the status as long as the last one has some property. -/
def pollWhile (bus : AtaBus World) (busIoPort : Nat) (again : Nat → Bool) (fuel : Nat) (seen : Nat × World) :
    Except Stop (Nat × World) :=
  loop .outOfFuel (fun seen : Nat × World =>
    .ok (if again seen.1 then .inl (portRd bus.ports (busIoPort + irStatus) .ps8 seen.2) else .inr seen)) fuel seen

/-- The two loops that wait for the answer to an IDENTIFY, from the first status on. -/
def waitIdentify (bus : AtaBus World) (busIoPort fuel : Nat) (seen : Nat × World) : Except Stop (Nat × World) := do
  let idle ← pollWhile bus busIoPort (fun status => status &&& sBsy ≠ 0) fuel seen
  pollWhile bus busIoPort (fun status => status &&& sDrq = 0 ∧ status &&& sErr = 0) fuel idle

/-- Read words from the data register of a bus. -/
def readIdWords (bus : AtaBus World) (busIoPort : Nat) : Nat → World → List Nat × World
  | 0, world => ([], world)
  | count + 1, world =>
      let word := portRd bus.ports (busIoPort + irData) .ps16 world
      let rest := readIdWords bus busIoPort count word.2
      (word.1 :: rest.1, rest.2)

/-- `out` with what the answer to an IDENTIFY says of the device. -/
def fillDev (out : AtaPioDev) (idBuf : List Nat) : AtaPioDev :=
  let nsector := idBuf.getD 60 0 ||| idBuf.getD 61 0 <<< 16
  { out with
    sectorSize := idBuf.getD 51 0
    nsector
    support := (if idBuf.getD 83 0 &&& 0x400 ≠ 0 then apdsLba ||| apdsLba48 else 0) |||
      if nsector ≠ 0 then apdsLba else 0 }

def ataPioDevGet (bus : AtaBus World) (fuel : Nat) (out : AtaPioDev) (busIoPort busCtlPort devNum : Nat)
    (s : AtaState World) : Except Stop (AtaGet World) := do
  let out := { out with busIoPort, busCtlPort, devNum, support := 0 }
  let issued := issueGet bus busIoPort devNum s
  let (status, world) := portRd bus.ports (busIoPort + irStatus) .ps8 issued.world
  if status = 0 then return { ret := 1, out, state := { issued with world } }
  let (status, world) ← waitIdentify bus busIoPort fuel (status, world)
  if status &&& sErr ≠ 0 then return { ret := 1, out, state := { issued with world } }
  let (idBuf, world) := readIdWords bus busIoPort 256 world
  let out := fillDev out idBuf
  if out.support &&& apdsLba = 0 then return { ret := 1, out, state := { issued with world } }
  return { ret := 0, out, state := { issued with world } }

def ataPioDevId (bus : AtaBus World) (fuel : Nat) (dev : AtaPioDev) (s : AtaState World) :
    Except Stop (AtaId World) := do
  let issued := issueId bus dev s
  let seen := portRd bus.ports (dev.busIoPort + irStatus) .ps8 issued.world
  let (status, world) ← waitIdentify bus dev.busIoPort fuel seen
  if status &&& sErr ≠ 0 then return { ret := 1, outId := [], state := { issued with world } }
  let (outId, world) := readIdWords bus dev.busIoPort 256 world
  return { ret := 0, outId, state := { issued with world } }

end

end Bwuhos
