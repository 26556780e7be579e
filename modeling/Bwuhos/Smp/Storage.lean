import Bwuhos.Locking.Discipline
import Bwuhos.Smp.Memory

namespace Bwuhos.Smp

open Bwuhos.Data Program
open Bwuhos.Locking (Mutex Machine Env Children Created identified)

/-! # Storage, step by step

`ata_pio.c`, `blkdev.c` and `blk_cache.c`, as programs of which every access to a port or to
a variable that processors share is one step.
-/

abbrev AtaProgram (World Result : Type) : Type 1 := Program Mutex Stop (AtaState World) Result

def onAta {World Result : Type} (call : AtaProgram World Result) : Kernel World Result :=
  zoom Machine.toAtaState (fun ata machine => { machine with toAtaState := ata }) call

section

variable {World : Type}

/-- The loop of `sel_drive`, with `left` rounds left. -/
def findBus (busIoPort : Nat) : (left which : Nat) → AtaProgram World Nat
  | 0, which => return which
  | left + 1, which => do
      let info ← get fun s => s.busCache[which]?
      if info.map BusInfo.ioPort = some busIoPort then return which else findBus busIoPort left (which + 1)

def readInfo (env : Env World) (which : Nat) : AtaProgram World BusInfo :=
  get fun s => s.busCache[which]?.getD env.bus.beyond

def writeInfo (which : Nat) (info : BusInfo) : AtaProgram World Unit :=
  modify fun s => { s with busCache := s.busCache.set which info }

def writeSel (env : Env World) (busIoPort selData : Nat) : AtaProgram World Unit :=
  modify fun s => s.portWr env.bus (busIoPort + irDriveSel) selData .ps8

def selDrive (env : Env World) (busIoPort devNum selData : Nat) : AtaProgram World Unit := do
  let busCacheSize ← get fun s => s.busCache.length
  let which ← findBus busIoPort busCacheSize 0
  let info ← readInfo env which
  if which < busCacheSize ∧ info.selDevNum = devNum ∧ info.selData = selData then return ()
  else if which < maxBuses ∧ which = busCacheSize then do
    modify fun s => { s with busCache := s.busCache ++ [{ ioPort := busIoPort, selDevNum := devNum, selData }] }
    writeSel env busIoPort selData
  else if info.selDevNum ≠ devNum ∨ info.selData ≠ selData ∨ which = maxBuses then
    if which < maxBuses then do
      writeInfo which { info with selDevNum := devNum, selData }
      writeSel env busIoPort selData
    else writeSel env busIoPort selData
  else return ()

def clearAddr (env : Env World) (busIoPort : Nat) (size : PortSize) : Devices World Unit :=
  forEach (fun reg => portWr env (busIoPort + reg) 0 size) [irSectorCnt, irSectorNum, irCylLow, irCylHigh]

/-- Read the status of a bus until it is `done`. -/
def waitBus (env : Env World) (busIoPort : Nat) (done : Nat → Bool) (status : Nat) : Devices World Nat :=
  repeating (fun status =>
    if done status then return .inr status
    else do
      let next ← portRd env (busIoPort + irStatus) .ps8
      return .inl next) status

def waitIdentify (env : Env World) (busIoPort status : Nat) : Devices World Nat := do
  let status ← waitBus env busIoPort (fun status => status &&& sBsy = 0) status
  waitBus env busIoPort (fun status => ¬(status &&& sDrq = 0 ∧ status &&& sErr = 0)) status

def readIdWords (env : Env World) (busIoPort : Nat) : Nat → Devices World (List Nat)
  | 0 => return []
  | count + 1 => do
      let word ← portRd env (busIoPort + irData) .ps16
      let rest ← readIdWords env busIoPort count
      return word :: rest

def ataPioDevGet (env : Env World) (busIoPort busCtlPort devNum : Nat) : Kernel World (Nat × Option AtaPioDev) := do
  lock .ataPio
  onAta (selDrive env busIoPort devNum (0xa ||| devNum))
  onDevices (clearAddr env busIoPort .ps16)
  onDevices (clearAddr env busIoPort .ps8)
  onDevices (portWr env (busIoPort + irCmd) 0xec .ps8)
  let status ← onDevices (portRd env (busIoPort + irStatus) .ps8)
  if status = 0 then do
    kuPrintln env .err "ata_pio: device (0x%x:%x) reported status=0!" [.num busIoPort, .num devNum]
    unlock .ataPio
    return (1, none)
  else do
    let status ← onDevices (waitIdentify env busIoPort status)
    if status &&& sErr ≠ 0 then do
      kuPrintln env .err "ata_pio: device (0x%x:%x) reported status with ERR!" [.num busIoPort, .num devNum]
      unlock .ataPio
      return (1, none)
    else do
      let idBuf ← onDevices (readIdWords env busIoPort 256)
      let dev := identified busIoPort busCtlPort devNum idBuf
      if dev.support &&& apdsLba = 0 then do
        kuPrintln env .err "ata_pio: device (0x%x:%x) uses CHS which is unsupported!" [.num busIoPort, .num devNum]
        unlock .ataPio
        return (1, some dev)
      else do
        unlock .ataPio
        return (0, some dev)

def ataPioDevId (env : Env World) (dev : AtaPioDev) : Kernel World (Nat × List Nat) := do
  lock .ataPio
  onAta (selDrive env dev.busIoPort dev.devNum (0xa ||| dev.devNum))
  onDevices (clearAddr env dev.busIoPort (if lba48 dev then .ps16 else .ps8))
  onDevices (portWr env (dev.busIoPort + irCmd) 0xec .ps8)
  let status ← onDevices (portRd env (dev.busIoPort + irStatus) .ps8)
  let status ← onDevices (waitIdentify env dev.busIoPort status)
  if status &&& sErr ≠ 0 then do
    kuPrintln env .err "ata_pio: device (0x%x:%x) reported status with ERR upon ID!"
      [.num dev.busIoPort, .num dev.devNum]
    unlock .ataPio
    return (1, [])
  else do
    let outId ← onDevices (readIdWords env dev.busIoPort 256)
    unlock .ataPio
    return (0, outId)

/-- Select the drive and write the command to its registers. -/
def issueRead (env : Env World) (dev : AtaPioDev) (src nsector : Nat) : Kernel World Unit := do
  onAta (selDrive env dev.busIoPort dev.devNum
    (((if lba48 dev then 0xe0 else 0x40) ||| dev.devNum <<< 4) % 2 ^ 8))
  onDevices (forEach (fun write => portWr env (dev.busIoPort + write.1) write.2 .ps8) (readCommand dev src nsector))

def pollStatus (env : Env World) (dev : AtaPioDev) : Devices World Nat :=
  repeating (fun _ => do
    let status ← portRd env (dev.busIoPort + irStatus) .ps8
    return if status &&& sBsy ≠ 0 ∧ status &&& sErr = 0 then .inl () else .inr status) ()

/-- `*((uint16_t *)dst + index) = word`. -/
def store16 (dst : Buffer) (index : Nat) (word : UInt16) : Kernel World Buffer :=
  act fun machine => (dst.store16Low index word machine.low).map fun stored =>
    (stored.1, { machine with low := stored.2 })

/-- A buffer that is not null belongs to the call while it is filled. -/
def readWords (env : Env World) (dev : AtaPioDev) : (count index : Nat) → Buffer → Kernel World Buffer
  | 0, _, dst => return dst
  | count + 1, index, dst => do
      let word ← onDevices (portRd env (dev.busIoPort + irData) .ps16)
      let dst ← store16 dst index (.ofNat word)
      readWords env dev count (index + 1) dst

/-- The loop of `ata_pio_dev_rd` over the sectors from number `i` on, and what follows it. -/
def readSectors (env : Env World) (dev : AtaPioDev) (src : Nat) : (left i : Nat) → Buffer → Kernel World (Nat × Buffer)
  | 0, _, dst => do
      unlock .ataPio
      return (0, dst)
  | left + 1, i, dst => do
      let status ← onDevices (pollStatus env dev)
      if status &&& sErr ≠ 0 then do
        kuPrintln env .err "ata_pio: device (0x%x:%x) experienced read failure at sector 0x%x + 0x%x!"
          [.num dev.busIoPort, .num dev.devNum, .num src, .num i]
        unlock .ataPio
        return (1, dst)
      else do
        let dst ← readWords env dev (dev.sectorSize / 2) 0 dst
        readSectors env dev src left (i + 1) dst

def ataPioDevRd (env : Env World) (dev : AtaPioDev) (dst : Buffer) (src nsector : Nat) :
    Kernel World (Nat × Buffer) :=
  if nsector = 0 then return (0, dst)
  else if nsector > maxSectors dev then do
    kuPrintln env .err "ata_pio: device (0x%x:%x) tried to read 0x%x/0x%x sectors!"
      [.num dev.busIoPort, .num dev.devNum, .num nsector, .num (maxSectors dev)]
    return (1, dst)
  else do
    lock .ataPio
    issueRead env dev src (wrapSectors dev nsector)
    readSectors env dev src (wrapSectors dev nsector) 0 dst

def ataPioDevWr (_dev : AtaPioDev) (_dst : Nat) (_src : List UInt8) (_nsector : Nat) : Kernel World Nat := do
  lock .ataPio
  unlock .ataPio
  return 1

/-- The result, and `dst` afterwards. -/
def blkdevRd (env : Env World) (blkdev : Locking.Blkdev) (dst : Buffer) (src n : Nat) : Kernel World (Nat × Buffer) :=
  match blkdev.syncMutex with
  | none => stop .nullDeref
  | some mutex => do
      lock mutex
      if u64 (src + n) > blkdev.nblk then do
        kuPrintln env .err "blkdev: base + limit of read would exceed block device (0x%x) - 0x%x>0x%x!"
          [.num blkdev.place, .num (u64 (src + n)), .num blkdev.nblk]
        unlock mutex
        return (1, dst)
      else do
        let answer ← ataPioDevRd env blkdev.driverData dst (blkdev.addr src) n
        unlock mutex
        return (0, answer.2)

def blkdevWr (env : Env World) (blkdev : Locking.Blkdev) (dst : Nat) (src : List UInt8) (n : Nat) : Kernel World Nat :=
  match blkdev.syncMutex with
  | none => stop .nullDeref
  | some mutex => do
      lock mutex
      if u64 (dst + n) > blkdev.nblk then do
        kuPrintln env .err "blkdev: base + limit of write would exceed block device (0x%x) - 0x%x>0x%x!"
          [.num blkdev.place, .num (u64 (dst + n)), .num blkdev.nblk]
        unlock mutex
        return 1
      else do
        let _ ← ataPioDevWr blkdev.driverData (blkdev.addr dst) src n
        unlock mutex
        return 0

/-- `buf` with its contents, and `loaded_blk`, of a `struct blk_cache`. -/
structure CacheState where
  buf : Buffer
  loadedBlk : Nat

/-- The machine, and what processors share of the block devices and the caches, by their addresses. -/
structure Storage (World : Type) extends Machine World where
  caches : Nat → CacheState
  children : Nat → Option Children

abbrev StorageProgram (World Result : Type) : Type 1 := Program Mutex Stop (Storage World) Result

def onMachine {Result : Type} (call : Kernel World Result) : StorageProgram World Result :=
  zoom Storage.toMachine (fun machine s => { s with toMachine := machine }) call

/-- `blkdev->children`, of which a null pointer points to memory at address 0. -/
def Storage.array (s : Storage World) (blkdev : Locking.Blkdev) : Children :=
  (s.children blkdev.place).getD { place := 0, parts := [] }

/-- `blkdev->nchildren`. -/
def nchildren (blkdev : Locking.Blkdev) (s : Storage World) : Nat := (s.array blkdev).parts.length

def appendPart (place : Nat) (children : Children) (part : Locking.Blkdev) : StorageProgram World Unit :=
  modify fun s => { s with
    children := Function.update s.children place (some { children with parts := children.parts ++ [part] }) }

/-- The message of `blkdev_mk_part` about its success, and what follows it.  The last read
of `nchildren` comes after the unlock. -/
def mkPartDone (env : Env World) (blkdev part : Locking.Blkdev) (mutex : Mutex) :
    StorageProgram World (Option Nat) := do
  onMachine (kuPrintln env .info "blkdev: partitioned block device (0x%x) -> \x7b0x%x..+0x%x\x7d"
    [.num blkdev.place, .num part.partBase, .num part.nblk])
  unlock mutex
  get fun s => some ((s.array blkdev).place + blkdevSize * (nchildren blkdev s - 1))

/-- The address that `blkdev_mk_part` returns, where it makes a partition. -/
def blkdevMkPart (env : Env World) (blkdev : Locking.Blkdev) (base limit : Nat) : StorageProgram World (Option Nat) :=
  if blkdev.flags &&& bfPart ≠ 0 then do
    onMachine (kuPrintln env .err "blkdev: cannot create sub-partition of partition (0x%x)!" [.num blkdev.place])
    return none
  else
    match blkdev.ownMutex with
    | none => stop .nullDeref
    | some mutex => do
        lock mutex
        let count ← get (nchildren blkdev)
        if count ≥ blkdevMaxParts then do
          onMachine (kuPrintln env .err "blkdev: block device (0x%x) already has max partitions!" [.num blkdev.place])
          unlock mutex
          return none
        else if u64 (base + limit) > blkdev.nblk then do
          onMachine (kuPrintln env .err
            "blkdev: base + limit of partition would exceed block device (0x%x) - 0x%x>0x%x!"
            [.num blkdev.place, .num (u64 (base + limit)), .num blkdev.nblk])
          unlock mutex
          return none
        else do
          let children ← get fun s => s.array blkdev
          let part := blkdev.part mutex (children.place + blkdevSize * count) base limit
          appendPart blkdev.place children part
          mkPartDone env blkdev part mutex

/-- The fields of a `struct blk_cache` at an address that never change. -/
structure CacheRef where
  place : Nat
  blkdev : Locking.Blkdev
deriving Repr, DecidableEq

def allocBuf (env : Env World) (n : Nat) : Kernel World Buffer := do
  let addr ← kheapAlloc env n
  if addr = 0 then return none
  else get fun machine => some (env.platform.uninit n machine.world).val

/-- `ku_memcpy(dst, &buf[off], n)`, which faults where `dst` cannot be written. -/
def kuMemcpy (env : Env World) (dst : BitVec 64) (buf : Buffer) (off n : Nat) : Kernel World (List UInt8) :=
  act fun machine =>
    if ¬env.space.Spans dst n then .error .outOfBounds
    else (buf.load (env.platform.beyond machine.world) off n machine.low).map fun bytes => (bytes, machine)

def readCache (cache : CacheRef) : StorageProgram World CacheState := get fun s => s.caches cache.place

def writeBuf (cache : CacheRef) (buf : Buffer) : StorageProgram World Unit :=
  modify fun s => { s with caches := Function.update s.caches cache.place { s.caches cache.place with buf } }

def writeLoaded (cache : CacheRef) (loadedBlk : Nat) : StorageProgram World Unit :=
  modify fun s => { s with caches := Function.update s.caches cache.place { s.caches cache.place with loadedBlk } }

/-- What `blk_cache_rd` does to read across block boundaries. -/
def blkCacheRdAcross (env : Env World) (cache : CacheRef) (dst : BitVec 64) (addr n : Nat) :
    Kernel World (Nat × List UInt8) := do
  let rdBlkCnt := u64 (n + cache.blkdev.blkSize - 1) / cache.blkdev.blkSize
  let rdBuf ← allocBuf env (u64 (cache.blkdev.blkSize * rdBlkCnt))
  let read ← blkdevRd env cache.blkdev rdBuf (addr / cache.blkdev.blkSize) rdBlkCnt
  if read.1 ≠ 0 then do
    kuPrintln env .err "buf: failed to read blocks from device (0x%x)!" [.num cache.blkdev.place]
    unlock (.blkCache cache.place)
    return (1, [])
  else do
    let copied ← kuMemcpy env dst read.2 (addr % cache.blkdev.blkSize) n
    unlock (.blkCache cache.place)
    return (0, copied)

/-- What `blk_cache_rd` does once the block is in the cache. -/
def finishRd (env : Env World) (cache : CacheRef) (dst : BitVec 64) (off n : Nat) :
    StorageProgram World (Nat × List UInt8) := do
  let now ← readCache cache
  let copied ← onMachine (kuMemcpy env dst now.buf off n)
  unlock (.blkCache cache.place)
  return (0, copied)

/-- What `blk_cache_rd` does to read inside one block. -/
def blkCacheRdWithin (env : Env World) (cache : CacheRef) (dst : BitVec 64) (addr n : Nat) :
    StorageProgram World (Nat × List UInt8) := do
  let lba := addr / cache.blkdev.blkSize
  let now ← readCache cache
  if lba = now.loadedBlk then finishRd env cache dst (addr % cache.blkdev.blkSize) n
  else do
    let read ← onMachine (blkdevRd env cache.blkdev now.buf lba 1)
    writeBuf cache read.2
    if read.1 ≠ 0 then do
      onMachine (kuPrintln env .err "buf: failed to load new block buffer from device (0x%x)!"
        [.num cache.blkdev.place])
      unlock (.blkCache cache.place)
      return (1, [])
    else do
      writeLoaded cache lba
      finishRd env cache dst (addr % cache.blkdev.blkSize) n

/-- The result, and the bytes copied to `dst`. -/
def blkCacheRd (env : Env World) (cache : CacheRef) (dst : BitVec 64) (addr n : Nat) :
    StorageProgram World (Nat × List UInt8) :=
  if n = 0 then return (0, [])
  else do
    lock (.blkCache cache.place)
    if cache.blkdev.blkSize = 0 then stop .divByZero
    else if addr / cache.blkdev.blkSize ≠ u64 (addr + n - 1) / cache.blkdev.blkSize then
      onMachine (blkCacheRdAcross env cache dst addr n)
    else blkCacheRdWithin env cache dst addr n

end

section

variable {World : Type} {fuel : Nat}

/-- The search finds the first element for the bus, or the end of the array. -/
theorem findBus_computes (busIoPort : Nat) {s : AtaState World} (passed rest : List BusInfo)
    (split_ : s.busCache = passed ++ rest) :
    Computes .outOfFuel fuel (findBus busIoPort rest.length passed.length) s
      (passed.length + rest.findIdx fun info => info.ioPort = busIoPort) s := by
  induction rest generalizing passed with
  | nil => exact .pure _ s
  | cons info rest ih =>
      have here : s.busCache[passed.length]? = some info := by simp [split_]
      refine .bind (.get _ s) ?_
      simp only [here, Option.map_some, Option.some.injEq, List.findIdx_cons]
      by_cases found : info.ioPort = busIoPort
      · simp only [found, decide_true, cond_true]
        exact .pure _ s
      · have again := ih (passed ++ [info]) (by simp [split_])
        simp only [found, decide_false, cond_false]
        rw [List.length_append] at again
        simpa [Nat.add_assoc, Nat.add_comm 1] using again

theorem selDrive_computes (env : Env World) (busIoPort devNum selData : Nat) (s : AtaState World) :
    Computes .outOfFuel fuel (selDrive env busIoPort devNum selData) s ()
      (Bwuhos.selDrive env.bus busIoPort devNum selData s) := by
  refine .bind (.get _ s) (.bind (findBus_computes busIoPort [] s.busCache rfl) (.bind (.get _ s) ?_))
  simp only [List.length_nil, Nat.zero_add, Bwuhos.selDrive]
  generalize (s.busCache.findIdx fun info => info.ioPort = busIoPort) = which
  split
  · exact .pure () s
  · split
    · exact .bind (.modify _ _) (.modify _ _)
    · split
      · split
        · exact .bind (.modify _ _) (.modify _ _)
        · exact .modify _ _
      · exact .pure () s

theorem ata_lens : Lens (fun machine : Machine World => machine.toAtaState) fun ata machine =>
    { machine with toAtaState := ata } where
  view_put _ _ := rfl
  put_view _ := rfl
  put_put _ _ _ := rfl

@[simp] theorem onDevices_run {Result : Type} (env : Env World) (program : Devices World Result) :
    (onDevices program).run .outOfFuel env.fuel = Locking.onDevices (program.run .outOfFuel env.fuel) :=
  run_zoom devices_lens program

@[simp] theorem onAta_selDrive_run (env : Env World) (busIoPort devNum selData : Nat) :
    (onAta (selDrive env busIoPort devNum selData)).run .outOfFuel env.fuel =
      Locking.selDrive env busIoPort devNum selData := by
  funext held machine
  exact Computes.zoom ata_lens (selDrive_computes env busIoPort devNum selData machine.toAtaState) held

@[simp] theorem clearAddr_run (env : Env World) (busIoPort : Nat) (size : PortSize) :
    (clearAddr env busIoPort size).run .outOfFuel env.fuel = Locking.clearAddr env busIoPort size := by
  simp only [clearAddr, Locking.clearAddr, run_forEach, portWr_run]

@[simp] theorem waitIdentify_run (env : Env World) (busIoPort status : Nat) :
    (waitIdentify env busIoPort status).run .outOfFuel env.fuel = Locking.waitIdentify env busIoPort status := by
  simp only [waitIdentify, Locking.waitIdentify, waitBus, run_bind, run_repeating, run_ite, run_pure, portRd_run,
    decide_eq_true_eq]

@[simp] theorem readIdWords_run (env : Env World) (busIoPort count : Nat) :
    (readIdWords env busIoPort count).run .outOfFuel env.fuel = Locking.readIdWords env busIoPort count := by
  induction count with
  | zero => rfl
  | succ count ih => simp only [readIdWords, Locking.readIdWords, run_bind, run_pure, portRd_run, ih]

theorem ataPioDevGet_run (env : Env World) (busIoPort busCtlPort devNum : Nat) :
    (ataPioDevGet env busIoPort busCtlPort devNum).run .outOfFuel env.fuel =
      Locking.ataPioDevGet env busIoPort busCtlPort devNum := by
  simp only [ataPioDevGet, Locking.ataPioDevGet, run_bind, run_lock, run_unlock, run_ite, run_pure, onAta_selDrive_run,
    onDevices_run, clearAddr_run, portWr_run, portRd_run, kuPrintln_run, waitIdentify_run, readIdWords_run]

theorem ataPioDevId_run (env : Env World) (dev : AtaPioDev) :
    (ataPioDevId env dev).run .outOfFuel env.fuel = Locking.ataPioDevId env dev := by
  simp only [ataPioDevId, Locking.ataPioDevId, run_bind, run_lock, run_unlock, run_ite, run_pure, onAta_selDrive_run,
    onDevices_run, clearAddr_run, portWr_run, portRd_run, kuPrintln_run, waitIdentify_run, readIdWords_run]

@[simp] theorem pollStatus_run (env : Env World) (dev : AtaPioDev) :
    (pollStatus env dev).run .outOfFuel env.fuel = Locked.act (Bwuhos.pollStatus env.bus dev env.fuel) := by
  have rounds (count : Nat) (held : Mutex → Bool) (world : World) :
      Locked.repeating .outOfFuel (fun _ => (do
        let status ← portRd env (dev.busIoPort + irStatus) .ps8
        return if status &&& sBsy ≠ 0 ∧ status &&& sErr = 0 then .inl () else .inr status : Devices World _).run
          .outOfFuel env.fuel) count () held world = Locked.act (Bwuhos.pollStatus env.bus dev count) held world := by
    induction count generalizing world with
    | zero => rfl
    | succ count ih =>
        simp only [Locked.repeating, run_bind, portRd_run, run_pure]
        simp only [bind, pure, Locked.andThen, Locking.portRd, Locked.act, Locked.ret, Bwuhos.pollStatus, loop]
        split
        · exact ih _
        · rfl
  exact funext fun held => funext fun world => rounds env.fuel held world

@[simp] theorem store16_run (env : Env World) (dst : Buffer) (index : Nat) (word : UInt16) :
    (store16 dst index word : Kernel World Buffer).run .outOfFuel env.fuel = Locking.store16 dst index word := rfl

@[simp] theorem readWords_run (env : Env World) (dev : AtaPioDev) (count index : Nat) (dst : Buffer) :
    (readWords env dev count index dst).run .outOfFuel env.fuel = Locking.readWords env dev count index dst := by
  induction count generalizing index dst with
  | zero => rfl
  | succ count ih =>
      simp only [readWords, Locking.readWords, run_bind, onDevices_run, portRd_run, store16_run, ih]

theorem writes_computes (env : Env World) (busIoPort : Nat) (writes : List (Nat × Nat)) (s : AtaState World) :
    Computes .outOfFuel fuel (forEach (fun write => portWr env (busIoPort + write.1) write.2 .ps8) writes) s.world ()
      (writes.foldl (fun s write => s.portWr env.bus (busIoPort + write.1) write.2 .ps8) s).world := by
  induction writes generalizing s with
  | nil => exact .pure () _
  | cons write rest ih => exact .bind (.modify _ _) (ih (s.portWr env.bus (busIoPort + write.1) write.2 .ps8))

theorem writes_busCache (bus : AtaBus World) (busIoPort : Nat) (writes : List (Nat × Nat)) (s : AtaState World) :
    (writes.foldl (fun s write => s.portWr bus (busIoPort + write.1) write.2 .ps8) s).busCache = s.busCache := by
  induction writes generalizing s with
  | nil => rfl
  | cons write rest ih => exact ih (s.portWr bus (busIoPort + write.1) write.2 .ps8)

theorem issueRead_computes (env : Env World) (dev : AtaPioDev) (src nsector : Nat) (machine : Machine World) :
    Computes .outOfFuel fuel (issueRead env dev src nsector) machine ()
      { machine with toAtaState := Bwuhos.issueRead env.bus dev src nsector machine.toAtaState } := by
  refine .bind (.zoom ata_lens (selDrive_computes env _ _ _ machine.toAtaState)) ?_
  have written := @writes_computes World fuel env dev.busIoPort (readCommand dev src nsector)
    (Bwuhos.selDrive env.bus dev.busIoPort dev.devNum
      (((if lba48 dev then 0xe0 else 0x40) ||| dev.devNum <<< 4) % 2 ^ 8) machine.toAtaState)
  have same := writes_busCache env.bus dev.busIoPort (readCommand dev src nsector)
    (Bwuhos.selDrive env.bus dev.busIoPort dev.devNum
      (((if lba48 dev then 0xe0 else 0x40) ||| dev.devNum <<< 4) % 2 ^ 8) machine.toAtaState)
  rw [Bwuhos.issueRead]
  generalize Bwuhos.selDrive env.bus dev.busIoPort dev.devNum
    (((if lba48 dev then 0xe0 else 0x40) ||| dev.devNum <<< 4) % 2 ^ 8) machine.toAtaState = selected at written same ⊢
  intro held
  refine (Computes.zoom devices_lens written held).trans ?_
  rw [← same]

@[simp] theorem issueRead_run (env : Env World) (dev : AtaPioDev) (src nsector : Nat) :
    (issueRead env dev src nsector).run .outOfFuel env.fuel = Locked.modify fun machine =>
      { machine with toAtaState := Bwuhos.issueRead env.bus dev src nsector machine.toAtaState } :=
  funext fun held => funext fun machine => issueRead_computes env dev src nsector machine held

@[simp] theorem readSectors_run (env : Env World) (dev : AtaPioDev) (src left i : Nat) (dst : Buffer) :
    (readSectors env dev src left i dst).run .outOfFuel env.fuel = Locking.readSectors env dev src left i dst := by
  induction left generalizing i dst with
  | zero => rfl
  | succ left ih =>
      simp only [readSectors, Locking.readSectors, run_bind, run_unlock, run_ite, run_pure, onDevices_run,
        pollStatus_run, readWords_run, kuPrintln_run, ih]

@[simp] theorem ataPioDevRd_run (env : Env World) (dev : AtaPioDev) (dst : Buffer) (src nsector : Nat) :
    (ataPioDevRd env dev dst src nsector).run .outOfFuel env.fuel = Locking.ataPioDevRd env dev dst src nsector := by
  simp only [ataPioDevRd, Locking.ataPioDevRd, run_bind, run_lock, run_ite, run_pure, kuPrintln_run, issueRead_run,
    readSectors_run]

@[simp] theorem ataPioDevWr_run (env : Env World) (dev : AtaPioDev) (dst : Nat) (src : List UInt8) (nsector : Nat) :
    (ataPioDevWr dev dst src nsector : Kernel World Nat).run .outOfFuel env.fuel =
      Locking.ataPioDevWr dev dst src nsector := rfl

@[simp] theorem blkdevRd_run (env : Env World) (blkdev : Locking.Blkdev) (dst : Buffer) (src n : Nat) :
    (blkdevRd env blkdev dst src n).run .outOfFuel env.fuel = Locking.blkdevRd env blkdev dst src n := by
  unfold blkdevRd Locking.blkdevRd
  cases blkdev.syncMutex with
  | none => rfl
  | some mutex =>
      simp only [run_bind, run_lock, run_unlock, run_ite, run_pure, kuPrintln_run, ataPioDevRd_run]

theorem blkdevWr_run (env : Env World) (blkdev : Locking.Blkdev) (dst : Nat) (src : List UInt8) (n : Nat) :
    (blkdevWr env blkdev dst src n).run .outOfFuel env.fuel = Locking.blkdevWr env blkdev dst src n := by
  unfold blkdevWr Locking.blkdevWr
  cases blkdev.syncMutex with
  | none => rfl
  | some mutex =>
      simp only [run_bind, run_lock, run_unlock, run_ite, run_pure, kuPrintln_run, ataPioDevWr_run]

def CacheRef.at (cache : CacheRef) (s : Storage World) : Locking.BlkCache where
  place := cache.place
  blkdev := cache.blkdev
  buf := (s.caches cache.place).buf
  loadedBlk := (s.caches cache.place).loadedBlk

def cacheRef (cache : Locking.BlkCache) : CacheRef where
  place := cache.place
  blkdev := cache.blkdev

def Storage.putCache (s : Storage World) (machine : Machine World) (cache : Locking.BlkCache) : Storage World :=
  { s with
    toMachine := machine
    caches := Function.update s.caches cache.place { buf := cache.buf, loadedBlk := cache.loadedBlk } }

/-- An outcome with the cache where it belongs. -/
def putCacheOutcome (s : Storage World) :
    LockOutcome Mutex Stop (Machine World) (Nat × List UInt8 × Locking.BlkCache) →
      LockOutcome Mutex Stop (Storage World) (Nat × List UInt8)
  | .blocked => .blocked
  | .stopped fault => .stopped fault
  | .returned result held machine => .returned (result.1, result.2.1) held (s.putCache machine result.2.2)

theorem machine_lens : Lens (fun s : Storage World => s.toMachine) fun machine s =>
    { s with toMachine := machine } where
  view_put _ _ := rfl
  put_view _ := rfl
  put_put _ _ _ := rfl

theorem onMachine_run {Result : Type} (env : Env World) (call : Kernel World Result) :
    (onMachine call).run .outOfFuel env.fuel =
      Locked.zoom Storage.toMachine (fun machine s => { s with toMachine := machine }) (call.run .outOfFuel env.fuel) :=
  run_zoom machine_lens call

@[simp] theorem allocBuf_run (env : Env World) (n : Nat) :
    (allocBuf env n).run .outOfFuel env.fuel = Locking.allocBuf env n := by
  simp only [allocBuf, Locking.allocBuf, run_bind, run_ite, run_pure, run_get, kheapAlloc_run]

@[simp] theorem kuMemcpy_run (env : Env World) (dst : BitVec 64) (buf : Buffer) (off n : Nat) :
    (kuMemcpy env dst buf off n).run .outOfFuel env.fuel = Locking.kuMemcpy env dst buf off n := rfl

variable {s : Storage World} {held : Mutex → Bool} {machine : Machine World} {now : Locking.BlkCache}

theorem putCache_at (s : Storage World) (cache : CacheRef) : s.putCache s.toMachine (cache.at s) = s := by
  simp only [Storage.putCache, CacheRef.at, Function.update_eq_self]

/-- A call on the machine, and a rest that goes on with the cache. -/
theorem onMachine_bind {Result : Type} (env : Env World) (call : Kernel World Result)
    {rest : Result → StorageProgram World (Nat × List UInt8)}
    {other : Result → Locking.Kernel World (Nat × List UInt8 × Locking.BlkCache)}
    (goes : ∀ value held machine, (rest value).run .outOfFuel env.fuel held (s.putCache machine now) =
      putCacheOutcome s (other value held machine)) :
    (onMachine call >>= rest).run .outOfFuel env.fuel held (s.putCache machine now) =
      putCacheOutcome s ((call.run .outOfFuel env.fuel >>= other) held machine) := by
  rw [run_bind, onMachine_run]
  simp only [bind, Locked.andThen, Locked.zoom, Storage.putCache]
  cases call.run .outOfFuel env.fuel held machine with
  | blocked => rfl
  | stopped fault => rfl
  | returned value held machine => exact goes value held machine

/-- A last call on the machine, which leaves the cache as it is. -/
theorem onMachine_last (env : Env World) (call : Kernel World (Nat × List UInt8)) :
    (onMachine call).run .outOfFuel env.fuel held (s.putCache machine now) =
      putCacheOutcome s
        ((call.run .outOfFuel env.fuel >>= fun answer => pure (answer.1, answer.2, now)) held machine) := by
  rw [onMachine_run]
  simp only [bind, Locked.andThen, Locked.zoom, Storage.putCache]
  cases call.run .outOfFuel env.fuel held machine with
  | blocked => rfl
  | stopped fault => rfl
  | returned value held machine => rfl

/-- The two branches of a test that both models make. -/
theorem ite_last (env : Env World) {condition : Prop} [Decidable condition]
    {one two : StorageProgram World (Nat × List UInt8)}
    {three four : Locking.Kernel World (Nat × List UInt8 × Locking.BlkCache)}
    (yes : condition →
      one.run .outOfFuel env.fuel held (s.putCache machine now) = putCacheOutcome s (three held machine))
    (no : ¬condition →
      two.run .outOfFuel env.fuel held (s.putCache machine now) = putCacheOutcome s (four held machine)) :
    (if condition then one else two).run .outOfFuel env.fuel held (s.putCache machine now) =
      putCacheOutcome s ((if condition then three else four) held machine) := by
  split
  · next holds => exact yes holds
  · next fails => exact no fails

theorem lock_bind (env : Env World) (mutex : Mutex) {rest : Unit → StorageProgram World (Nat × List UInt8)}
    {other : Unit → Locking.Kernel World (Nat × List UInt8 × Locking.BlkCache)}
    (goes : ∀ held, (rest ()).run .outOfFuel env.fuel held (s.putCache machine now) =
      putCacheOutcome s (other () held machine)) :
    (lock mutex >>= rest).run .outOfFuel env.fuel held (s.putCache machine now) =
      putCacheOutcome s ((Locked.lock mutex >>= other) held machine) := by
  rw [run_bind, run_lock]
  simp only [bind, Locked.andThen, Locked.lock]
  cases held mutex with
  | true => rfl
  | false => exact goes _

theorem unlock_last (env : Env World) (mutex : Mutex) (answer : Nat × List UInt8) :
    (do
      unlock mutex
      return answer : StorageProgram World (Nat × List UInt8)).run .outOfFuel env.fuel held (s.putCache machine now) =
        putCacheOutcome s ((do
          Locked.unlock mutex
          return (answer.1, answer.2, now)) held machine) := by
  change Locked.andThen (.unlock mutex) (fun _ => .ret answer) held (s.putCache machine now) =
    putCacheOutcome s (Locked.andThen (.unlock mutex) (fun _ => .ret (answer.1, answer.2, now)) held machine)
  simp only [Locked.andThen, Locked.unlock]
  cases held mutex <;> rfl

theorem readCache_bind (env : Env World) (rest : CacheState → StorageProgram World (Nat × List UInt8)) :
    (readCache (cacheRef now) >>= rest).run .outOfFuel env.fuel held (s.putCache machine now) =
      (rest { buf := now.buf, loadedBlk := now.loadedBlk }).run .outOfFuel env.fuel held (s.putCache machine now) := by
  have read : (s.putCache machine now).caches now.place = { buf := now.buf, loadedBlk := now.loadedBlk } :=
    Function.update_self ..
  exact congrArg (fun state => (rest state).run .outOfFuel env.fuel held (s.putCache machine now)) read

theorem writeBuf_bind (env : Env World) (buf : Buffer) (rest : Unit → StorageProgram World (Nat × List UInt8)) :
    (writeBuf (cacheRef now) buf >>= rest).run .outOfFuel env.fuel held (s.putCache machine now) =
      (rest ()).run .outOfFuel env.fuel held (s.putCache machine { now with buf }) := by
  refine congrArg ((rest ()).run _ _ _) ?_
  simp only [Storage.putCache, cacheRef, Function.update_self, Function.update_idem]

theorem writeLoaded_bind (env : Env World) (loadedBlk : Nat)
    (rest : Unit → StorageProgram World (Nat × List UInt8)) :
    (writeLoaded (cacheRef now) loadedBlk >>= rest).run .outOfFuel env.fuel held (s.putCache machine now) =
      (rest ()).run .outOfFuel env.fuel held (s.putCache machine { now with loadedBlk }) := by
  refine congrArg ((rest ()).run _ _ _) ?_
  simp only [Storage.putCache, cacheRef, Function.update_self, Function.update_idem]

theorem finishRd_run (env : Env World) (now : Locking.BlkCache) (dst : BitVec 64) (off n : Nat) :
    (finishRd env (cacheRef now) dst off n).run .outOfFuel env.fuel held (s.putCache machine now) =
      putCacheOutcome s (Locking.finishRd env now dst off n held machine) :=
  (readCache_bind env _).trans (onMachine_bind env _ fun _ _ _ => unlock_last env _ _)

theorem blkCacheRdAcross_run (env : Env World) (now : Locking.BlkCache) (dst : BitVec 64) (addr n : Nat) :
    (onMachine (blkCacheRdAcross env (cacheRef now) dst addr n)).run .outOfFuel env.fuel held (s.putCache machine now) =
      putCacheOutcome s (Locking.blkCacheRdAcross env now dst addr n held machine) := by
  refine (onMachine_last env _).trans (congrArg (putCacheOutcome s) (congrFun (congrFun ?_ held) machine))
  simp only [blkCacheRdAcross, run_bind, bind_assoc_locked, allocBuf_run, blkdevRd_run]
  refine congrArg (Locked.andThen _) (funext fun rdBuf => congrArg (Locked.andThen _) (funext fun read => ?_))
  split <;> simp only [run_bind, run_unlock, run_pure, kuPrintln_run, kuMemcpy_run, bind_assoc_locked] <;> rfl

theorem blkCacheRdWithin_run (env : Env World) (now : Locking.BlkCache) (dst : BitVec 64) (addr n : Nat) :
    (blkCacheRdWithin env (cacheRef now) dst addr n).run .outOfFuel env.fuel held (s.putCache machine now) =
      putCacheOutcome s (Locking.blkCacheRdWithin env now dst addr n held machine) := by
  refine (readCache_bind env _).trans (ite_last env (fun _ => finishRd_run env now dst _ n) fun _ => ?_)
  rw [← blkdevRd_run]
  refine onMachine_bind env (blkdevRd env now.blkdev now.buf _ 1) fun read held machine => ?_
  refine (writeBuf_bind env _ _).trans (ite_last env (fun _ => ?_) fun _ => ?_)
  · rw [← kuPrintln_run]
    exact onMachine_bind env (kuPrintln env _ _ _) fun _ held machine => unlock_last env _ _
  · refine (@writeLoaded_bind World s held machine { now with buf := read.2 } env _ _).trans ?_
    exact finishRd_run env { now with buf := read.2, loadedBlk := addr / now.blkdev.blkSize } dst _ n

theorem cacheCall_run (env : Env World) (now : Locking.BlkCache) (dst : BitVec 64) (addr n : Nat) :
    (blkCacheRd env (cacheRef now) dst addr n).run .outOfFuel env.fuel held (s.putCache machine now) =
      putCacheOutcome s (Locking.blkCacheRd env now dst addr n held machine) := by
  refine ite_last env (fun _ => rfl) fun _ => lock_bind env _ fun held => ite_last env (fun _ => rfl) fun _ => ?_
  exact ite_last env (fun _ => blkCacheRdAcross_run env now dst addr n) fun _ => blkCacheRdWithin_run env now dst addr n

/-- With no other processor beside it, a cached read is that of the model with mutexes. -/
theorem blkCacheRd_run (env : Env World) (cache : CacheRef) (dst : BitVec 64) (addr n : Nat) :
    (blkCacheRd env cache dst addr n).run .outOfFuel env.fuel held s =
      putCacheOutcome s (Locking.blkCacheRd env (cache.at s) dst addr n held s.toMachine) := by
  have ran := @cacheCall_run World s held s.toMachine env (cache.at s) dst addr n
  rwa [putCache_at] at ran

end

section

variable {World : Type} {level : Nat}

theorem onDevices_nested {Result : Type} {call : Devices World Result} (nested : NestedCall level anything call) :
    NestedCall level anything (onDevices call) :=
  .zoom anything nested fun _ _ _ => trivial

theorem onMachine_nested {Result : Type} {call : Kernel World Result} (nested : NestedCall level anything call) :
    NestedCall level anything (onMachine call) :=
  .zoom anything nested fun _ _ _ => trivial

theorem findBus_lockFree (busIoPort left which : Nat) :
    LockFree (findBus busIoPort left which : AtaProgram World Nat) := by
  induction left generalizing which with
  | zero => trivial
  | succ left ih =>
      refine ⟨trivial, fun info => ?_⟩
      dsimp only
      split
      · trivial
      · exact ih (which + 1)

theorem selDrive_nested (env : Env World) (busIoPort devNum selData : Nat) :
    NestedCall level anything (onAta (selDrive env busIoPort devNum selData)) := by
  have free : LockFree (selDrive env busIoPort devNum selData) := by
    refine ⟨trivial, fun size => ⟨findBus_lockFree _ _ _, fun which => ⟨trivial, fun info => ?_⟩⟩⟩
    dsimp only
    split
    · trivial
    · split
      · exact ⟨trivial, fun _ => trivial⟩
      · split
        · split
          · exact ⟨trivial, fun _ => trivial⟩
          · trivial
        · trivial
  exact .zoom anything free.nested fun _ _ _ => trivial

theorem clearAddr_nested (env : Env World) (busIoPort : Nat) (size : PortSize) :
    NestedCall level anything (clearAddr env busIoPort size) :=
  .forEach _ fun _ => portWr_nested env _ _ _ _

theorem waitBus_nested (env : Env World) (busIoPort : Nat) (done : Nat → Bool) (status : Nat) :
    NestedCall level anything (waitBus env busIoPort done status) := by
  refine .repeating (fun status => ?_) status
  split
  · exact .pure _
  · exact .bind (portRd_nested env _ _ _) fun next => .pure _

theorem waitIdentify_nested (env : Env World) (busIoPort status : Nat) :
    NestedCall level anything (waitIdentify env busIoPort status) :=
  .bind (waitBus_nested env _ _ _) fun _ => waitBus_nested env _ _ _

theorem readIdWords_nested (env : Env World) (busIoPort count : Nat) :
    NestedCall level anything (readIdWords env busIoPort count) := by
  induction count with
  | zero => exact .pure _
  | succ count ih => exact .bind (portRd_nested env _ _ _) fun word => .bind ih fun rest => .pure _

theorem pollStatus_nested (env : Env World) (dev : AtaPioDev) : NestedCall level anything (pollStatus env dev) :=
  .repeating (fun _ => .bind (portRd_nested env _ _ _) fun _ => .pure _) ()

theorem store16_nested (dst : Buffer) (index : Nat) (word : UInt16) :
    NestedCall level anything (store16 dst index word : Kernel World Buffer) := .act fun _ _ _ _ => trivial

theorem readWords_nested (env : Env World) (dev : AtaPioDev) (count index : Nat) (dst : Buffer) :
    NestedCall level anything (readWords env dev count index dst) := by
  induction count generalizing index dst with
  | zero => exact .pure _
  | succ count ih =>
      refine .bind (onDevices_nested (portRd_nested env _ _ _)) fun word => ?_
      exact .bind (store16_nested _ _ _) fun dst => ih _ dst

theorem ataPioDevGet_nested (env : Env World) (busIoPort busCtlPort devNum : Nat) (room : 4 < level) :
    NestedCall level anything (ataPioDevGet env busIoPort busCtlPort devNum) := by
  have low : 4 ≤ level := Nat.le_of_lt room
  apply Nested.lock (show Mutex.rank .ataPio < level from room)
  refine .bind (selDrive_nested env _ _ _) low fun _ => ?_
  refine .bind (onDevices_nested (clearAddr_nested env _ _)) low fun _ => ?_
  refine .bind (onDevices_nested (clearAddr_nested env _ _)) low fun _ => ?_
  refine .bind (onDevices_nested (portWr_nested env _ _ _ _)) low fun _ => ?_
  refine .bind (onDevices_nested (portRd_nested env _ _ _)) low fun status => ?_
  dsimp only
  split
  · exact printed_releasing env _ _ _ _ (by decide) low
  · refine .bind (onDevices_nested (waitIdentify_nested env _ _)) low fun status => ?_
    split
    · exact printed_releasing env _ _ _ _ (by decide) low
    · refine .bind (onDevices_nested (readIdWords_nested env _ _)) low fun idBuf => ?_
      split
      · exact printed_releasing env _ _ _ _ (by decide) low
      · exact .unlock (.pure _)

theorem ataPioDevId_nested (env : Env World) (dev : AtaPioDev) (room : 4 < level) :
    NestedCall level anything (ataPioDevId env dev) := by
  have low : 4 ≤ level := Nat.le_of_lt room
  apply Nested.lock (show Mutex.rank .ataPio < level from room)
  refine .bind (selDrive_nested env _ _ _) low fun _ => ?_
  refine .bind (onDevices_nested (clearAddr_nested env _ _)) low fun _ => ?_
  refine .bind (onDevices_nested (portWr_nested env _ _ _ _)) low fun _ => ?_
  refine .bind (onDevices_nested (portRd_nested env _ _ _)) low fun status => ?_
  refine .bind (onDevices_nested (waitIdentify_nested env _ _)) low fun status => ?_
  split
  · exact printed_releasing env _ _ _ _ (by decide) low
  · exact .bind (onDevices_nested (readIdWords_nested env _ _)) low fun outId => .unlock (.pure _)

/-- A sector that fails ends the loop and unlocks; any other leaves the mutex to the next. -/
theorem readSectors_releasing (env : Env World) (dev : AtaPioDev) (src left i : Nat) (dst : Buffer) (low : 4 ≤ level) :
    Releasing Mutex.rank level anything .ataPio (readSectors env dev src left i dst) := by
  induction left generalizing i dst with
  | zero => exact .unlock (.pure _)
  | succ left ih =>
      refine Releasing.bind (onDevices_nested (pollStatus_nested env dev)) low fun status => ?_
      split
      · exact printed_releasing env _ _ _ _ (by decide) low
      · exact .bind (readWords_nested env dev _ _ _) low fun dst => ih (i + 1) dst

theorem ataPioDevRd_nested (env : Env World) (dev : AtaPioDev) (dst : Buffer) (src nsector : Nat) (room : 4 < level) :
    NestedCall level anything (ataPioDevRd env dev dst src nsector) := by
  unfold ataPioDevRd
  split
  · exact .pure _
  · split
    · exact .bind (printed_nested env _ _ _ (by omega)) fun _ => .pure _
    · apply Nested.lock (show Mutex.rank .ataPio < level from room)
      refine .bind (.bind (selDrive_nested env _ _ _) fun _ => ?_) (Nat.le_of_lt room) fun _ => ?_
      · exact onDevices_nested (.forEach _ fun _ => portWr_nested env _ _ _ _)
      · exact readSectors_releasing env dev src _ 0 dst (Nat.le_of_lt room)

theorem ataPioDevWr_nested (dev : AtaPioDev) (dst : Nat) (src : List UInt8) (nsector : Nat) (room : 4 < level) :
    NestedCall level anything (ataPioDevWr dev dst src nsector : Kernel World Nat) :=
  Nested.lock (show Mutex.rank .ataPio < level from room) (.unlock (.pure _))

variable {blkdev : Locking.Blkdev}

theorem blkdevRd_nested (env : Env World) (created : Created blkdev) (dst : Buffer) (src n : Nat) (room : 5 < level) :
    NestedCall level anything (blkdevRd env blkdev dst src n) := by
  obtain ⟨place, chosen⟩ := created.syncMutex_eq
  unfold blkdevRd
  rw [chosen]
  apply Nested.lock (show Mutex.rank (.blkdev place) < level from room)
  split
  · exact printed_releasing env _ _ _ _ (by simp [Mutex.rank]) (Nat.le_of_lt room)
  · refine .bind (ataPioDevRd_nested env _ dst _ n (by simp [Mutex.rank])) (Nat.le_of_lt room) fun answer => ?_
    exact .unlock (.pure _)

theorem blkdevWr_nested (env : Env World) (created : Created blkdev) (dst : Nat) (src : List UInt8) (n : Nat)
    (room : 5 < level) : NestedCall level anything (blkdevWr env blkdev dst src n) := by
  obtain ⟨place, chosen⟩ := created.syncMutex_eq
  unfold blkdevWr
  rw [chosen]
  apply Nested.lock (show Mutex.rank (.blkdev place) < level from room)
  split
  · exact printed_releasing env _ _ _ _ (by simp [Mutex.rank]) (Nat.le_of_lt room)
  · refine .bind (ataPioDevWr_nested _ _ src n (by simp [Mutex.rank])) (Nat.le_of_lt room) fun _ => ?_
    exact .unlock (.pure _)

/-- An exit on the machine that prints first and then unlocks. -/
theorem printedMachine_releasing {Result : Type} {mutex : Mutex} (env : Env World) (type : Locking.LogType)
    (msg : String) (args : List Locking.PrintArg) {rest : StorageProgram World Result} (held : 1 < mutex.rank)
    (room : mutex.rank ≤ level) (nested : NestedCall level anything rest) :
    Releasing Mutex.rank level anything mutex (do
      onMachine (kuPrintln env type msg args)
      unlock mutex
      rest) :=
  .bind (onMachine_nested (printed_nested env type msg args held)) room fun _ => .unlock nested

theorem get_nested {State Result : Type} (view : State → Result) :
    NestedCall level anything (.get view : Program Mutex Stop State Result) := .get (fun _ => trivial) view

theorem modify_nested {State : Type} (change : State → State) :
    NestedCall level anything (.modify change : Program Mutex Stop State Unit) := .modify fun _ => trivial

theorem blkdevMkPart_nested (env : Env World) (created : Created blkdev) (base limit : Nat) (room : 5 < level) :
    NestedCall level anything (blkdevMkPart env blkdev base limit) := by
  have low : 5 ≤ level := Nat.le_of_lt room
  have held : 1 < Mutex.rank (.blkdev blkdev.place) := by simp [Mutex.rank]
  unfold blkdevMkPart
  rw [created.ownMutex_eq]
  split
  · exact .bind (onMachine_nested (printed_nested env _ _ _ (by omega))) fun _ => .pure _
  · apply Nested.lock (show Mutex.rank (.blkdev blkdev.place) < level from room)
    refine .bind (get_nested _) low fun count => ?_
    dsimp only
    split
    · exact printedMachine_releasing env _ _ _ held low (.pure _)
    · split
      · exact printedMachine_releasing env _ _ _ held low (.pure _)
      · refine .bind (get_nested _) low fun children => .bind (modify_nested _) low fun _ => ?_
        exact printedMachine_releasing env _ _ _ held low (get_nested _)

theorem allocBuf_nested (env : Env World) (n : Nat) (room : 3 < level) :
    NestedCall level anything (allocBuf env n) := by
  refine .bind (kheapAlloc_nested env n room) fun addr => ?_
  split
  · exact .pure _
  · exact get_nested _

theorem kuMemcpy_nested (env : Env World) (dst : BitVec 64) (buf : Buffer) (off n : Nat) :
    NestedCall level anything (kuMemcpy env dst buf off n) := .act fun _ _ _ _ => trivial

variable {cache : CacheRef}

theorem finishRd_releasing (env : Env World) (dst : BitVec 64) (off n : Nat) (low : 6 ≤ level) :
    Releasing Mutex.rank level anything (.blkCache cache.place) (finishRd env cache dst off n) := by
  refine .bind (get_nested _) low fun now => ?_
  exact .bind (onMachine_nested (kuMemcpy_nested env dst _ _ n)) low fun dst => .unlock (.pure _)

theorem blkCacheRdAcross_releasing (env : Env World) (created : Created cache.blkdev) (dst : BitVec 64) (addr n : Nat)
    (low : 6 ≤ level) :
    Releasing Mutex.rank level anything (.blkCache cache.place) (blkCacheRdAcross env cache dst addr n) := by
  refine .bind (allocBuf_nested env _ (by simp [Mutex.rank])) low fun rdBuf => ?_
  refine .bind (blkdevRd_nested env created rdBuf _ _ (by simp [Mutex.rank])) low fun read => ?_
  split
  · exact printed_releasing env _ _ _ _ (by simp [Mutex.rank]) low
  · exact .bind (kuMemcpy_nested env dst _ _ n) low fun dst => .unlock (.pure _)

theorem blkCacheRdWithin_releasing (env : Env World) (created : Created cache.blkdev) (dst : BitVec 64) (addr n : Nat)
    (low : 6 ≤ level) :
    Releasing Mutex.rank level anything (.blkCache cache.place) (blkCacheRdWithin env cache dst addr n) := by
  refine .bind (get_nested _) low fun now => ?_
  split
  · exact finishRd_releasing env dst _ n low
  · have read : NestedCall 6 anything (blkdevRd env cache.blkdev now.buf (addr / cache.blkdev.blkSize) 1) :=
      blkdevRd_nested env created _ _ _ (by decide)
    refine .bind (onMachine_nested read) low fun read => .bind (modify_nested _) low fun _ => ?_
    split
    · exact printedMachine_releasing env _ _ _ (by simp [Mutex.rank]) low (.pure _)
    · exact .bind (modify_nested _) low fun _ => finishRd_releasing env dst _ n low

theorem blkCacheRd_nested (env : Env World) (created : Created cache.blkdev) (dst : BitVec 64) (addr n : Nat)
    (room : 6 < level) : NestedCall level anything (blkCacheRd env cache dst addr n) := by
  have low : 6 ≤ level := Nat.le_of_lt room
  unfold blkCacheRd
  split
  · exact .pure _
  · apply Nested.lock (show Mutex.rank (.blkCache cache.place) < level from room)
    split
    · exact .stop _
    · split
      · exact .zoom anything (blkCacheRdAcross_releasing env created dst addr n low) fun _ _ _ => trivial
      · exact blkCacheRdWithin_releasing env created dst addr n low

end

end Bwuhos.Smp
