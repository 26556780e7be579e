import Bwuhos.BlkCache
import Bwuhos.Data.Loop
import Bwuhos.Data.Table

namespace Bwuhos

open Bwuhos.Data

/-! # The FAT file system driver

`fat.c`.  Loops take fuel.  Uninitialised locals are parameters.  A character array is
the list of its bytes.
-/

def fatMaxFileDescs : Nat := 128

theorem fatMaxFileDescs_pos : 0 < fatMaxFileDescs := by decide

def fdaRo : Nat := 0x1

def fdaHidden : Nat := 0x2

def fdaSys : Nat := 0x4

def fdaVolId : Nat := 0x8

def fdaDir : Nat := 0x10

def fdaLfn : Nat := fdaRo ||| fdaHidden ||| fdaSys ||| fdaVolId

def ffdfOpen : Nat := 0x1

def ffdfRead : Nat := 0x2

def ffdfWrite : Nat := 0x4

def vffRead : Nat := 0x1

def vffWrite : Nat := 0x2

inductive VfsWhence where
  | start
  | cur
  | «end»
deriving Repr, DecidableEq

structure FatDirentInfo where
  name : List UInt8
  timeMkH : Nat
  timeMkM : Nat
  timeMkS : Nat
  dateMkY : Nat
  dateMkM : Nat
  dateMkD : Nat
  dateAccY : Nat
  dateAccM : Nat
  dateAccD : Nat
  timeModH : Nat
  timeModM : Nat
  timeModS : Nat
  dateModY : Nat
  dateModM : Nat
  dateModD : Nat
  attr : Nat
  cluster : Nat
  size : Nat
deriving Repr, DecidableEq

structure FatFileDesc where
  cluster : Nat
  size : Nat
  filePos : Nat
  flags : Nat
deriving Repr, DecidableEq

def FatFileDesc.zero : FatFileDesc := { cluster := 0, size := 0, filePos := 0, flags := 0 }

structure FatDriver (World : Type) where
  blkCache : BlkCache World
  fileDescs : Vector FatFileDesc fatMaxFileDescs
  sectorSize : Nat
  clusterSize : Nat
  firstDataSector : Nat
  sectorCnt : Nat
  rootSectorCnt : Nat
  dataSectorCnt : Nat
  clusterCnt : Nat

structure FatState (World : Type) where
  driver : FatDriver World
  world : World

section Fields

def byteAt (bytes : List UInt8) (offset : Nat) : Nat := (bytes.getD offset 0).toNat

def le16 (bytes : List UInt8) (offset : Nat) : Nat := byteAt bytes offset + 2 ^ 8 * byteAt bytes (offset + 1)

def le32 (bytes : List UInt8) (offset : Nat) : Nat := le16 bytes offset + 2 ^ 16 * le16 bytes (offset + 2)

theorem byteAt_lt (bytes : List UInt8) (offset : Nat) : byteAt bytes offset < 2 ^ 8 := UInt8.toNat_lt _

theorem le16_lt (bytes : List UInt8) (offset : Nat) : le16 bytes offset < 2 ^ 16 := by
  have low := byteAt_lt bytes offset
  have high := byteAt_lt bytes (offset + 1)
  unfold le16
  omega

theorem le32_lt (bytes : List UInt8) (offset : Nat) : le32 bytes offset < 2 ^ 32 := by
  have low := le16_lt bytes offset
  have high := le16_lt bytes (offset + 2)
  unfold le32
  omega

def bpbSectorSize (buf : List UInt8) : Nat := le16 buf 11

def bpbClusterSize (buf : List UInt8) : Nat := byteAt buf 13

def bpbResSectorCnt (buf : List UInt8) : Nat := le16 buf 14

def bpbFatCnt (buf : List UInt8) : Nat := byteAt buf 16

def bpbRootDirentCnt (buf : List UInt8) : Nat := le16 buf 17

def bpbSectorCnt (buf : List UInt8) : Nat := le16 buf 19

def bpbFatSectors (buf : List UInt8) : Nat := le16 buf 22

def bpbLargeSectorCnt (buf : List UInt8) : Nat := le32 buf 32

def direntAttr (ent : List UInt8) : Nat := byteAt ent 11

def direntTimeMkHms (ent : List UInt8) : Nat := le16 ent 14

def direntTimeMkDate (ent : List UInt8) : Nat := le16 ent 16

def direntTimeAccDate (ent : List UInt8) : Nat := le16 ent 18

def direntTimeModHms (ent : List UInt8) : Nat := le16 ent 22

def direntTimeModDate (ent : List UInt8) : Nat := le16 ent 24

def direntFirstCluster0 (ent : List UInt8) : Nat := le16 ent 26

def direntFileSize (ent : List UInt8) : Nat := le32 ent 28

def lfnOrder (ent : List UInt8) : Nat := byteAt ent 0

/-- The characters of a long-name entry, cut down to bytes, and where in the name the
driver puts them. -/
def lfnChars (ent : List UInt8) : List (Nat × UInt8) :=
  ((List.range 5).map fun i => (13 * lfnOrder ent + i, ent.getD (1 + 2 * i) 0)) ++
    ((List.range 6).map fun i => (13 * lfnOrder ent + 5 + i, ent.getD (14 + 2 * i) 0)) ++
      (List.range 2).map fun i => (13 * lfnOrder ent + 11 + i, ent.getD (28 + 2 * i) 0)

end Fields

section Verify

variable {World : Type}

/-- A `uint8_t buf[512]` on the stack, after `blkdev_rd` of block 0 into it. -/
def readBootSector (platform : Platform World) (blkdev : Blkdev World) (world : World) :
    Except Stop (Nat × List UInt8 × World) := do
  let read := blkdevRd blkdev 0 1 world
  let buf ← Buffer.write (some (platform.uninit 512 world).val) read.data
  return (read.ret, buf.getD [], read.world)

structure FatGeometry where
  sectorCnt : Nat
  rootSectorCnt : Nat
  dataSectorCnt : Nat
  clusterCnt : Nat
deriving Repr, DecidableEq

def fatGeometry (buf : List UInt8) : Except Stop FatGeometry :=
  let sectorCnt := if bpbSectorCnt buf ≠ 0 then bpbSectorCnt buf else bpbLargeSectorCnt buf
  if bpbSectorSize buf = 0 then .error .divByZero
  else
    let rootSectorCnt := (32 * bpbRootDirentCnt buf + bpbSectorSize buf - 1) / bpbSectorSize buf
    let dataSectorCnt := u64Sub (u64Sub (u64Sub sectorCnt (bpbResSectorCnt buf))
      (bpbFatCnt buf * bpbFatSectors buf)) rootSectorCnt
    if bpbClusterSize buf = 0 then .error .divByZero
    else .ok { sectorCnt, rootSectorCnt, dataSectorCnt, clusterCnt := dataSectorCnt / bpbClusterSize buf }

def fatVerify (platform : Platform World) (blkdev : Blkdev World) (world : World) : Except Stop (Nat × World) :=
  if blkdev.blkSize ≠ 512 then .ok (1, world)
  else do
    let (ret, buf, world) ← readBootSector platform blkdev world
    if ret ≠ 0 then return (1, world)
    if le16 buf 510 ≠ 0xaa55 then return (1, world)
    if bpbSectorSize buf ≠ 512 then return (1, world)
    if bpbFatSectors buf = 0 then return (1, world)
    let geometry ← fatGeometry buf
    if geometry.sectorCnt = 0 then return (1, world)
    if geometry.clusterCnt < 4085 then return (1, world)
    return (0, world)

/-- The driver that `fat_driver_create` fills in, or its error code. -/
def fatDriverCreate (platform : Platform World) (blkdev : Blkdev World) (world : World) :
    Except Stop (Except Nat (FatDriver World) × World) := do
  let (rejected, world) ← fatVerify platform blkdev world
  if rejected ≠ 0 then return (.error 1, world)
  let (ret, buf, world) ← readBootSector platform blkdev world
  if ret ≠ 0 then return (.error 1, world)
  let geometry ← fatGeometry buf
  let (blkCache, world) := blkCacheCreate platform blkdev world
  let driver := {
    blkCache
    fileDescs := Vector.replicate fatMaxFileDescs .zero
    sectorSize := bpbSectorSize buf
    clusterSize := bpbClusterSize buf
    firstDataSector := u64 (bpbResSectorCnt buf + bpbFatCnt buf * bpbFatSectors buf + geometry.rootSectorCnt)
    sectorCnt := geometry.sectorCnt
    rootSectorCnt := geometry.rootSectorCnt
    dataSectorCnt := geometry.dataSectorCnt
    clusterCnt := geometry.clusterCnt }
  return (.ok driver, world)

end Verify

end Bwuhos
