import Bwuhos.Blkdev
import Bwuhos.Data.Loop
import Bwuhos.Port

namespace Bwuhos

open Bwuhos.Data

/-! # The ATA PIO driver

`ata_pio.c`, without its mutex and its delays.  Polling loops take fuel.
-/

def maxBuses : Nat := 4

def irData : Nat := 0

def irSectorCnt : Nat := 2

def irSectorNum : Nat := 3

def irCylLow : Nat := 4

def irCylHigh : Nat := 5

def irDriveSel : Nat := 6

def irStatus : Nat := 7

def irCmd : Nat := 7

def sErr : Nat := 0x1

def sBsy : Nat := 0x80

def apdsLba : Nat := 0x1

def apdsLba48 : Nat := 0x2

structure AtaPioDev where
  sectorSize : Nat
  nsector : Nat
  busIoPort : Nat
  busCtlPort : Nat
  devNum : Nat
  support : Nat
deriving Repr, DecidableEq

structure BusInfo where
  ioPort : Nat
  selDevNum : Nat
  selData : Nat
deriving Repr, DecidableEq

/-- The machine under the driver, and what lies in memory behind the array `bus_cache`. -/
structure AtaBus (World : Type) where
  ports : Ports World
  beyond : BusInfo

/-- The first `bus_cache_size` elements of `bus_cache`, and the rest of the world. -/
structure AtaState (World : Type) where
  busCache : List BusInfo
  world : World

/-- What `ata_pio_dev_rd` returns, and `dst` afterwards. -/
structure AtaRd (World : Type) where
  ret : Nat
  dst : Buffer
  state : AtaState World

section

variable {World : Type}

def AtaState.portWr (s : AtaState World) (bus : AtaBus World) (p data : Nat) (size : PortSize) : AtaState World :=
  { s with world := Bwuhos.portWr bus.ports p data size s.world }

def selDrive (bus : AtaBus World) (busIoPort devNum selData : Nat) (s : AtaState World) : AtaState World :=
  let which := s.busCache.findIdx fun info => info.ioPort = busIoPort
  let info := s.busCache[which]?.getD bus.beyond
  if which < s.busCache.length ∧ info.selDevNum = devNum ∧ info.selData = selData then s
  else if which < maxBuses ∧ which = s.busCache.length then
    let cached : AtaState World :=
      { s with busCache := s.busCache ++ [{ ioPort := busIoPort, selDevNum := devNum, selData }] }
    cached.portWr bus (busIoPort + irDriveSel) selData .ps8
  else if info.selDevNum ≠ devNum ∨ info.selData ≠ selData ∨ which = maxBuses then
    let cached : AtaState World := if which < maxBuses then
      { s with busCache := s.busCache.set which { info with selDevNum := devNum, selData } } else s
    cached.portWr bus (busIoPort + irDriveSel) selData .ps8
  else s

def lba48 (dev : AtaPioDev) : Prop := dev.support &&& apdsLba48 ≠ 0

instance (dev : AtaPioDev) : Decidable (lba48 dev) := inferInstanceAs (Decidable (_ ≠ _))

def maxSectors (dev : AtaPioDev) : Nat := if lba48 dev then 0x10000 else 0x100

/-- A count of `maxSectors` is passed on as 0. -/
def wrapSectors (dev : AtaPioDev) (nsector : Nat) : Nat := if nsector = maxSectors dev then 0 else nsector

/-- The register writes that make up a read command, in order. -/
def readCommand (dev : AtaPioDev) (src nsector : Nat) : List (Nat × Nat) :=
  if lba48 dev then
    [(irSectorCnt, nsector >>> 8), (irSectorNum, src >>> 24), (irCylLow, src >>> 32), (irCylHigh, src >>> 40),
      (irSectorCnt, nsector), (irSectorNum, src), (irCylLow, src >>> 8), (irCylHigh, src >>> 16), (irCmd, 0x24)]
  else
    [(irSectorCnt, nsector), (irSectorNum, src), (irCylLow, src >>> 8), (irCylHigh, src >>> 16), (irCmd, 0x20)]

/-- Select the drive and issue the command. -/
def issueRead (bus : AtaBus World) (dev : AtaPioDev) (src nsector : Nat) (s : AtaState World) : AtaState World :=
  let selData := ((if lba48 dev then 0xe0 else 0x40) ||| dev.devNum <<< 4) % 2 ^ 8
  (readCommand dev src nsector).foldl (fun s write => s.portWr bus (dev.busIoPort + write.1) write.2 .ps8)
    (selDrive bus dev.busIoPort dev.devNum selData s)

/-- Read the status until the device is not busy, or reports an error. -/
def pollStatus (bus : AtaBus World) (dev : AtaPioDev) (fuel : Nat) (world : World) : Except Stop (Nat × World) :=
  loop .outOfFuel (fun world =>
    let status := portRd bus.ports (dev.busIoPort + irStatus) .ps8 world
    .ok (if status.1 &&& sBsy ≠ 0 ∧ status.1 &&& sErr = 0 then .inl status.2 else .inr status)) fuel world

/-- The loop over the words of one sector, from word `index` on. -/
def readWords (bus : AtaBus World) (dev : AtaPioDev) : Nat → Nat → Buffer → World → Except Stop (Buffer × World)
  | 0, _, dst, world => .ok (dst, world)
  | count + 1, index, dst, world => do
      let word := portRd bus.ports (dev.busIoPort + irData) .ps16 world
      let dst ← dst.store16 index (.ofNat word.1)
      readWords bus dev count (index + 1) dst word.2

/-- The loop over the sectors.  Every sector goes to the start of `dst`. -/
def readSectors (bus : AtaBus World) (dev : AtaPioDev) (fuel : Nat) :
    Nat → Buffer → AtaState World → Except Stop (AtaRd World)
  | 0, dst, s => .ok { ret := 0, dst, state := s }
  | count + 1, dst, s => do
      let (status, world) ← pollStatus bus dev fuel s.world
      if status &&& sErr ≠ 0 then return { ret := 1, dst, state := { s with world } }
      let (dst, world) ← readWords bus dev (dev.sectorSize / 2) 0 dst world
      readSectors bus dev fuel count dst { s with world }

def ataPioDevRd (bus : AtaBus World) (dev : AtaPioDev) (fuel : Nat) (dst : Buffer) (src nsector : Nat)
    (s : AtaState World) : Except Stop (AtaRd World) :=
  if nsector = 0 then .ok { ret := 0, dst, state := s }
  else if nsector > maxSectors dev then .ok { ret := 1, dst, state := s }
  else readSectors bus dev fuel (wrapSectors dev nsector) dst (issueRead bus dev src (wrapSectors dev nsector) s)

/-- `sizeof(struct ata_pio_dev)`. -/
def ataPioDevSize : Nat := 24

/-- `rd` and `wr` are `ata_pio_blkdev_rd` and `ata_pio_blkdev_wr` for a device. -/
def ataPioBlkdevCreate (platform : Platform World) (rd : AtaPioDev → (src n : Nat) → World → RdAnswer × World)
    (wr : AtaPioDev → (dst : Nat) → (src : List UInt8) → (n : Nat) → World → Int × World) (dev : AtaPioDev)
    (world : World) : Except Stop (BlkNode World × World) :=
  match (platform.alloc ataPioDevSize world).1 with
  | none => .error .nullDeref
  | some _ => .ok (blkdevCreate platform (rd dev) (wr dev) .diskDrive .ataPio 0 dev.sectorSize dev.nsector
      (platform.alloc ataPioDevSize world).2)

end

end Bwuhos
