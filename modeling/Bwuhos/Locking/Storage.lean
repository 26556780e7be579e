import Bwuhos.AtaPio.Identify
import Bwuhos.BlkCache
import Bwuhos.Locking.Memory

namespace Bwuhos.Locking

open Bwuhos.Data Locked

/-! # Storage

`ata_pio.c`, `blkdev.c` and `blk_cache.c` with their mutexes.
-/

def bfSyncDepChild : Nat := 0x2

section

variable {World : Type}

def selDrive (env : Env World) (busIoPort devNum selData : Nat) : Kernel World Unit :=
  modify fun machine =>
    { machine with toAtaState := Bwuhos.selDrive env.bus busIoPort devNum selData machine.toAtaState }

/-- Write zero to the address registers of a bus. -/
def clearAddr (env : Env World) (busIoPort : Nat) (size : PortSize) : Devices World Unit :=
  forEach (fun reg => portWr env (busIoPort + reg) 0 size) [irSectorCnt, irSectorNum, irCylLow, irCylHigh]

/-- The two loops that wait for the answer to an IDENTIFY, from a status on. -/
def waitIdentify (env : Env World) (busIoPort status : Nat) : Devices World Nat := do
  let status ← repeating .outOfFuel (fun status => do
    if status &&& sBsy = 0 then return .inr status
    let next ← portRd env (busIoPort + irStatus) .ps8
    return .inl next) env.fuel status
  repeating .outOfFuel (fun status => do
    if ¬(status &&& sDrq = 0 ∧ status &&& sErr = 0) then return .inr status
    let next ← portRd env (busIoPort + irStatus) .ps8
    return .inl next) env.fuel status

/-- Read words from the data register of a bus. -/
def readIdWords (env : Env World) (busIoPort : Nat) : Nat → Devices World (List Nat)
  | 0 => return []
  | count + 1 => do
      let word ← portRd env (busIoPort + irData) .ps16
      let rest ← readIdWords env busIoPort count
      return word :: rest

/-- The device that the answer to an IDENTIFY describes. -/
def identified (busIoPort busCtlPort devNum : Nat) (idBuf : List Nat) : AtaPioDev :=
  let nsector := idBuf.getD 60 0 ||| idBuf.getD 61 0 <<< 16
  { sectorSize := idBuf.getD 51 0
    nsector
    busIoPort
    busCtlPort
    devNum
    support := (if idBuf.getD 83 0 &&& 0x400 ≠ 0 then apdsLba ||| apdsLba48 else 0) |||
      if nsector ≠ 0 then apdsLba else 0 }

/-- The result, and `*out` where it is filled in. -/
def ataPioDevGet (env : Env World) (busIoPort busCtlPort devNum : Nat) : Kernel World (Nat × Option AtaPioDev) := do
  lock .ataPio
  selDrive env busIoPort devNum (0xa ||| devNum)
  onDevices (clearAddr env busIoPort .ps16)
  onDevices (clearAddr env busIoPort .ps8)
  onDevices (portWr env (busIoPort + irCmd) 0xec .ps8)
  let status ← onDevices (portRd env (busIoPort + irStatus) .ps8)
  if status = 0 then do
    kuPrintln env .err "ata_pio: device (0x%x:%x) reported status=0!" [.num busIoPort, .num devNum]
    unlock .ataPio
    return (1, none)
  else do
    let status ← onDevices (waitIdentify env busIoPort status)
    if status &&& sErr ≠ 0 then do
      kuPrintln env .err "ata_pio: device (0x%x:%x) reported status with ERR!" [.num busIoPort, .num devNum]
      unlock .ataPio
      return (1, none)
    else do
      let idBuf ← onDevices (readIdWords env busIoPort 256)
      let dev := identified busIoPort busCtlPort devNum idBuf
      if dev.support &&& apdsLba = 0 then do
        kuPrintln env .err "ata_pio: device (0x%x:%x) uses CHS which is unsupported!" [.num busIoPort, .num devNum]
        unlock .ataPio
        return (1, some dev)
      else do
        unlock .ataPio
        return (0, some dev)

/-- The result, and the words at `out_id`. -/
def ataPioDevId (env : Env World) (dev : AtaPioDev) : Kernel World (Nat × List Nat) := do
  lock .ataPio
  selDrive env dev.busIoPort dev.devNum (0xa ||| dev.devNum)
  onDevices (clearAddr env dev.busIoPort (if lba48 dev then .ps16 else .ps8))
  onDevices (portWr env (dev.busIoPort + irCmd) 0xec .ps8)
  let status ← onDevices (portRd env (dev.busIoPort + irStatus) .ps8)
  let status ← onDevices (waitIdentify env dev.busIoPort status)
  if status &&& sErr ≠ 0 then do
    kuPrintln env .err "ata_pio: device (0x%x:%x) reported status with ERR upon ID!"
      [.num dev.busIoPort, .num dev.devNum]
    unlock .ataPio
    return (1, [])
  else do
    let outId ← onDevices (readIdWords env dev.busIoPort 256)
    unlock .ataPio
    return (0, outId)

/-- `*((uint16_t *)dst + index) = word`. -/
def store16 (dst : Buffer) (index : Nat) (word : UInt16) : Kernel World Buffer :=
  act fun machine => (dst.store16Low index word machine.low).map fun stored =>
    (stored.1, { machine with low := stored.2 })

/-- The loop over the words of one sector, from word `index` on. -/
def readWords (env : Env World) (dev : AtaPioDev) : (count index : Nat) → Buffer → Kernel World Buffer
  | 0, _, dst => return dst
  | count + 1, index, dst => do
      let word ← onDevices (portRd env (dev.busIoPort + irData) .ps16)
      let dst ← store16 dst index (.ofNat word)
      readWords env dev count (index + 1) dst

/-- The loop of `ata_pio_dev_rd` over the sectors from number `i` on, and what follows it.
Every sector goes to the start of `dst`. -/
def readSectors (env : Env World) (dev : AtaPioDev) (src : Nat) : (left i : Nat) → Buffer → Kernel World (Nat × Buffer)
  | 0, _, dst => do
      unlock .ataPio
      return (0, dst)
  | left + 1, i, dst => do
      let status ← onDevices (act (pollStatus env.bus dev env.fuel))
      if status &&& sErr ≠ 0 then do
        kuPrintln env .err "ata_pio: device (0x%x:%x) experienced read failure at sector 0x%x + 0x%x!"
          [.num dev.busIoPort, .num dev.devNum, .num src, .num i]
        unlock .ataPio
        return (1, dst)
      else do
        let dst ← readWords env dev (dev.sectorSize / 2) 0 dst
        readSectors env dev src left (i + 1) dst

/-- The result, and `dst` afterwards. -/
def ataPioDevRd (env : Env World) (dev : AtaPioDev) (dst : Buffer) (src nsector : Nat) :
    Kernel World (Nat × Buffer) :=
  if nsector = 0 then return (0, dst)
  else if nsector > maxSectors dev then do
    kuPrintln env .err "ata_pio: device (0x%x:%x) tried to read 0x%x/0x%x sectors!"
      [.num dev.busIoPort, .num dev.devNum, .num nsector, .num (maxSectors dev)]
    return (1, dst)
  else do
    lock .ataPio
    modify fun machine =>
      { machine with toAtaState := issueRead env.bus dev src (wrapSectors dev nsector) machine.toAtaState }
    readSectors env dev src (wrapSectors dev nsector) 0 dst

def ataPioDevWr (_dev : AtaPioDev) (_dst : Nat) (_src : List UInt8) (_nsector : Nat) : Kernel World Nat := do
  lock .ataPio
  unlock .ataPio
  return 1

end

/-- A `struct blkdev` at an address, with `rd` and `wr` those of the ATA PIO driver and
`*driver_data` in place of its pointer. -/
structure Blkdev where
  place : Nat
  driverData : AtaPioDev
  partBase : Nat
  flags : Nat
  blkSize : Nat
  nblk : Nat
  parentMutex : Option Mutex
deriving Repr, DecidableEq

/-- The array of the partitions of a device: its address, and its first `nchildren` elements. -/
structure Children where
  place : Nat
  parts : List Blkdev
deriving Repr, DecidableEq

/-- A device with `children`, which is null where there was no memory for it. -/
structure BlkNode where
  dev : Blkdev
  children : Option Children
deriving Repr, DecidableEq

/-- A null array is memory at address 0. -/
def BlkNode.array (node : BlkNode) : Children := node.children.getD { place := 0, parts := [] }

/-- The device of `ata_pio_blkdev_create`, once it is registered at an address. -/
def ataPioBlkdevCreate (dev : AtaPioDev) (place : Nat) : Blkdev where
  place := place
  driverData := dev
  partBase := 0
  flags := 0
  blkSize := dev.sectorSize
  nblk := dev.nsector
  parentMutex := none

/-- The mutex that `blkdev_mk_part` takes. -/
def Blkdev.ownMutex (blkdev : Blkdev) : Option Mutex :=
  if blkdev.flags &&& bfSyncDepChild ≠ 0 then blkdev.parentMutex else some (.blkdev blkdev.place)

/-- The mutex that `blkdev_rd` and `blkdev_wr` take. -/
def Blkdev.syncMutex (blkdev : Blkdev) : Option Mutex :=
  if blkdev.flags &&& bfPart ≠ 0 ∨ blkdev.flags &&& bfSyncDepChild ≠ 0 then blkdev.parentMutex
  else some (.blkdev blkdev.place)

/-- The partition of a device at an address. -/
def Blkdev.part (blkdev : Blkdev) (mutex : Mutex) (place base limit : Nat) : Blkdev where
  place := place
  driverData := blkdev.driverData
  partBase := base
  flags := blkdev.flags ||| bfPart
  blkSize := blkdev.blkSize
  nblk := limit
  parentMutex := some mutex

/-- The devices that the repository creates. -/
inductive Created : Blkdev → Prop
  | disk (dev : AtaPioDev) (place : Nat) : Created (ataPioBlkdevCreate dev place)
  | part {blkdev : Blkdev} {mutex : Mutex} (created : Created blkdev) (own : blkdev.ownMutex = some mutex)
      (whole : blkdev.flags &&& bfPart = 0) (place base limit : Nat) : Created (blkdev.part mutex place base limit)

section

variable {World : Type}

/-- The new partition, if there is one, and the device afterwards. -/
def blkdevMkPart (env : Env World) (node : BlkNode) (base limit : Nat) : Kernel World (Option Blkdev × BlkNode) :=
  if node.dev.flags &&& bfPart ≠ 0 then do
    kuPrintln env .err "blkdev: cannot create sub-partition of partition (0x%x)!" [.num node.dev.place]
    return (none, node)
  else
    match node.dev.ownMutex with
    | none => stop .nullDeref
    | some mutex => do
        lock mutex
        if node.array.parts.length ≥ blkdevMaxParts then do
          kuPrintln env .err "blkdev: block device (0x%x) already has max partitions!" [.num node.dev.place]
          unlock mutex
          return (none, node)
        else if u64 (base + limit) > node.dev.nblk then do
          kuPrintln env .err
            "blkdev: base + limit of partition would exceed block device (0x%x) - 0x%x>0x%x!"
            [.num node.dev.place, .num (u64 (base + limit)), .num node.dev.nblk]
          unlock mutex
          return (none, node)
        else do
          let part := node.dev.part mutex (node.array.place + blkdevSize * node.array.parts.length) base limit
          kuPrintln env .info "blkdev: partitioned block device (0x%x) -> \x7b0x%x..+0x%x\x7d"
            [.num node.dev.place, .num part.partBase, .num part.nblk]
          unlock mutex
          return (some part, { node with children := some { node.array with parts := node.array.parts ++ [part] } })

/-- The block of the underlying device that stands for a block of `blkdev`. -/
def Blkdev.addr (blkdev : Blkdev) (blk : Nat) : Nat :=
  if blkdev.flags &&& bfPart = 0 then blk else u64 (blk + blkdev.partBase)

/-- The result, and `dst` afterwards. -/
def blkdevRd (env : Env World) (blkdev : Blkdev) (dst : Buffer) (src n : Nat) : Kernel World (Nat × Buffer) :=
  match blkdev.syncMutex with
  | none => stop .nullDeref
  | some mutex => do
      lock mutex
      if u64 (src + n) > blkdev.nblk then do
        kuPrintln env .err "blkdev: base + limit of read would exceed block device (0x%x) - 0x%x>0x%x!"
          [.num blkdev.place, .num (u64 (src + n)), .num blkdev.nblk]
        unlock mutex
        return (1, dst)
      else do
        let answer ← ataPioDevRd env blkdev.driverData dst (blkdev.addr src) n
        unlock mutex
        return (0, answer.2)

def blkdevWr (env : Env World) (blkdev : Blkdev) (dst : Nat) (src : List UInt8) (n : Nat) : Kernel World Nat :=
  match blkdev.syncMutex with
  | none => stop .nullDeref
  | some mutex => do
      lock mutex
      if u64 (dst + n) > blkdev.nblk then do
        kuPrintln env .err "blkdev: base + limit of write would exceed block device (0x%x) - 0x%x>0x%x!"
          [.num blkdev.place, .num (u64 (dst + n)), .num blkdev.nblk]
        unlock mutex
        return 1
      else do
        let _ ← ataPioDevWr blkdev.driverData (blkdev.addr dst) src n
        unlock mutex
        return 0

end

/-- A `struct blk_cache` at an address. -/
structure BlkCache where
  place : Nat
  blkdev : Blkdev
  buf : Buffer
  loadedBlk : Nat
deriving Repr, DecidableEq

section

variable {World : Type}

/-- The buffer that `kheap_alloc` gives for `n` bytes. -/
def allocBuf (env : Env World) (n : Nat) : Kernel World Buffer := do
  let addr ← kheapAlloc env n
  if addr = 0 then return none
  else get fun machine => some (env.platform.uninit n machine.world).val

/-- `ku_memcpy(dst, &buf[off], n)`, which faults where `dst` cannot be written. -/
def kuMemcpy (env : Env World) (dst : BitVec 64) (buf : Buffer) (off n : Nat) : Kernel World (List UInt8) :=
  act fun machine =>
    if ¬env.space.Spans dst n then .error .outOfBounds
    else (buf.load (env.platform.beyond machine.world) off n machine.low).map fun bytes => (bytes, machine)

/-- What `blk_cache_rd` does to read across block boundaries. -/
def blkCacheRdAcross (env : Env World) (cache : BlkCache) (dst : BitVec 64) (addr n : Nat) :
    Kernel World (Nat × List UInt8 × BlkCache) := do
  let rdBlkCnt := u64 (n + cache.blkdev.blkSize - 1) / cache.blkdev.blkSize
  let rdBuf ← allocBuf env (u64 (cache.blkdev.blkSize * rdBlkCnt))
  let read ← blkdevRd env cache.blkdev rdBuf (addr / cache.blkdev.blkSize) rdBlkCnt
  if read.1 ≠ 0 then do
    kuPrintln env .err "buf: failed to read blocks from device (0x%x)!" [.num cache.blkdev.place]
    unlock (.blkCache cache.place)
    return (1, [], cache)
  else do
    let copied ← kuMemcpy env dst read.2 (addr % cache.blkdev.blkSize) n
    unlock (.blkCache cache.place)
    return (0, copied, cache)

/-- What `blk_cache_rd` does once the block is in the cache. -/
def finishRd (env : Env World) (cache : BlkCache) (dst : BitVec 64) (off n : Nat) :
    Kernel World (Nat × List UInt8 × BlkCache) := do
  let copied ← kuMemcpy env dst cache.buf off n
  unlock (.blkCache cache.place)
  return (0, copied, cache)

/-- What `blk_cache_rd` does to read inside one block. -/
def blkCacheRdWithin (env : Env World) (cache : BlkCache) (dst : BitVec 64) (addr n : Nat) :
    Kernel World (Nat × List UInt8 × BlkCache) :=
  let lba := addr / cache.blkdev.blkSize
  if lba = cache.loadedBlk then finishRd env cache dst (addr % cache.blkdev.blkSize) n
  else do
    let read ← blkdevRd env cache.blkdev cache.buf lba 1
    if read.1 ≠ 0 then do
      kuPrintln env .err "buf: failed to load new block buffer from device (0x%x)!" [.num cache.blkdev.place]
      unlock (.blkCache cache.place)
      return (1, [], { cache with buf := read.2 })
    else finishRd env { cache with buf := read.2, loadedBlk := lba } dst (addr % cache.blkdev.blkSize) n

/-- The result, the bytes copied to `dst`, and the cache afterwards. -/
def blkCacheRd (env : Env World) (cache : BlkCache) (dst : BitVec 64) (addr n : Nat) :
    Kernel World (Nat × List UInt8 × BlkCache) :=
  if n = 0 then return (0, [], cache)
  else do
    lock (.blkCache cache.place)
    if cache.blkdev.blkSize = 0 then stop .divByZero
    else if addr / cache.blkdev.blkSize ≠ u64 (addr + n - 1) / cache.blkdev.blkSize then
      blkCacheRdAcross env cache dst addr n
    else blkCacheRdWithin env cache dst addr n

end

end Bwuhos.Locking
