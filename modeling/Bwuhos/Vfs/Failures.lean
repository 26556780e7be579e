import Bwuhos.BlkCache.Reads
import Bwuhos.Vfs

namespace Bwuhos

open Bwuhos.Data

/-! # Device failures

What becomes of the error code of a callback on its way up through the storage code.
-/

section

variable {World : Type}

def BlkRd.Failed (read : BlkRd World) : Prop := ∃ call, read.call = some call ∧ call.answer.ret ≠ 0

def BlkWr.Failed (write : BlkWr World) : Prop := ∃ call, write.call = some call ∧ call.ret ≠ 0

def CacheRd.Failed (read : CacheRd World) : Prop := ∃ issued, read.read = some issued ∧ issued.Failed

def FileRd.Failed (read : FileRd World) : Prop := ∃ issued, read.read = some issued ∧ issued.Failed

def VfsRd.Failed (read : VfsRd World) : Prop := ∃ issued, read.read = some issued ∧ issued.Failed

/-- `blkdev_rd` accepts the request, and the callback fails on it. -/
def RdFails (dev : Blkdev World) (src n : Nat) (world : World) : Prop :=
  u64 (src + n) ≤ dev.nblk ∧ (dev.rd (dev.addr src) n world).1.ret ≠ 0

def WrFails (dev : Blkdev World) (dst : Nat) (src : List UInt8) (n : Nat) (world : World) : Prop :=
  u64 (dst + n) ≤ dev.nblk ∧ (dev.wr (dev.addr dst) src n world).1 ≠ 0

/-- `blk_cache_rd` reads from the device, and that read fails. -/
def CacheRdFails (platform : Platform World) (cache : BlkCache World) (addr n : Nat) (world : World) : Prop :=
  let blkSize := cache.blkdev.blkSize
  let count := u64 (n + blkSize - 1) / blkSize
  n ≠ 0 ∧
    if addr / blkSize = u64 (addr + n - 1) / blkSize then
      addr / blkSize ≠ cache.loadedBlk ∧ RdFails cache.blkdev (addr / blkSize) 1 world
    else RdFails cache.blkdev (addr / blkSize) count (platform.alloc (u64 (blkSize * count)) world).2

/-- `fat_vfs_rd` finds the range inside the file, and its cached read fails. -/
def FileRdFails (platform : Platform World) (s : FatState World) (fid n : Nat) : Prop :=
  ∃ slot, fdIndex fid = .ok slot ∧ (s.driver.fileDescs.get slot).filePos < (s.driver.fileDescs.get slot).size ∧
    u64 ((s.driver.fileDescs.get slot).filePos + n) ≤ (s.driver.fileDescs.get slot).size ∧
    CacheRdFails platform s.driver.blkCache
      (u64 (clusterToPos s.driver (s.driver.fileDescs.get slot).cluster + (s.driver.fileDescs.get slot).filePos))
      n s.world

/-- `vfs_rd` gets to the driver of an open file, whose read fails. -/
def VfsRdFails (platform : Platform World) (vfs : Vfs World) (file : VfsFile) (n : Nat) : Prop :=
  ¬(file.drive = 0 ∨ file.file = 0) ∧ ∃ driver, (vfs.drives.get file.slot).driver = some driver ∧
    fatVfsIsOpen driver file.file = .ok true ∧ FileRdFails platform { driver, world := vfs.world } file.file n

theorem nothing_failed {Call : Type} {failed : Call → Prop} : ¬∃ call, none = some call ∧ failed call :=
  fun ⟨_, impossible, _⟩ => by cases impossible

variable {platform : Platform World} {dev : Blkdev World} {cache : BlkCache World} {s : FatState World}
  {vfs : Vfs World} {world : World}

theorem blkdevRd_failed_iff (src n : Nat) : (blkdevRd dev src n world).Failed ↔ RdFails dev src n world := by
  unfold blkdevRd RdFails
  split
  · next rejected => exact iff_of_false nothing_failed fun fails => by omega
  · next accepted =>
      constructor
      · rintro ⟨_, made, failed⟩
        cases made
        exact ⟨Nat.le_of_not_gt accepted, failed⟩
      · exact fun fails => ⟨_, rfl, fails.2⟩

theorem blkdevWr_failed_iff (dst : Nat) (src : List UInt8) (n : Nat) :
    (blkdevWr dev dst src n world).Failed ↔ WrFails dev dst src n world := by
  unfold blkdevWr WrFails
  split
  · next rejected => exact iff_of_false nothing_failed fun fails => by omega
  · next accepted =>
      constructor
      · rintro ⟨_, made, failed⟩
        cases made
        exact ⟨Nat.le_of_not_gt accepted, failed⟩
      · exact fun fails => ⟨_, rfl, fails.2⟩

theorem blkdevRd_hides {src n : Nat} (failed : (blkdevRd dev src n world).Failed) :
    (blkdevRd dev src n world).ret = 0 := by
  unfold blkdevRd
  rw [if_neg (Nat.not_lt_of_le ((blkdevRd_failed_iff src n).mp failed).1)]

theorem blkdevWr_hides {dst : Nat} {src : List UInt8} {n : Nat} (failed : (blkdevWr dev dst src n world).Failed) :
    (blkdevWr dev dst src n world).ret = 0 := by
  unfold blkdevWr
  rw [if_neg (Nat.not_lt_of_le ((blkdevWr_failed_iff dst src n).mp failed).1)]

theorem blkCacheRd_failure {addr n : Nat} {result : CacheRd World}
    (returned : blkCacheRd platform cache addr n world = .ok result) :
    (result.Failed ↔ CacheRdFails platform cache addr n world) ∧ (result.Failed → result.ret = 0) := by
  unfold blkCacheRd at returned
  unfold CacheRdFails CacheRd.Failed
  split at returned
  · next empty =>
      cases returned
      exact ⟨iff_of_false nothing_failed fun fails => fails.1 empty,
        fun _ => rfl⟩
  · next nonempty =>
      split at returned
      · cases returned
      · simp only [ne_eq, nonempty, not_false_eq_true, true_and]
        split at returned
        · next across =>
            obtain ⟨read, _, ret⟩ := blkCacheRdAcross_ok returned
            rw [if_neg across, read]
            simp only [Option.some.injEq, exists_eq_left']
            exact ⟨blkdevRd_failed_iff _ _, fun failed => ret.mpr (blkdevRd_hides failed)⟩
        · next within =>
            rw [if_pos (not_not.mp within)]
            rcases blkCacheRdWithin_ok returned with
              ⟨hit, ret, read, _⟩ | ⟨filled, _, miss, read, ⟨failed, _, _⟩ | ⟨_, ret, _⟩⟩
            · rw [read]
              exact ⟨iff_of_false nothing_failed fun fails => fails.1 hit, fun _ => ret⟩
            · rw [read]
              simp only [Option.some.injEq, exists_eq_left', miss, not_false_eq_true, true_and]
              exact ⟨blkdevRd_failed_iff _ _, fun hidden => absurd (blkdevRd_hides hidden) failed⟩
            · rw [read]
              simp only [Option.some.injEq, exists_eq_left', miss, not_false_eq_true, true_and]
              exact ⟨blkdevRd_failed_iff _ _, fun _ => ret⟩

theorem fatVfsRd_failure {fid n : Nat} {result : FileRd World} (returned : fatVfsRd platform s fid n = .ok result) :
    (result.Failed ↔ FileRdFails platform s fid n) ∧ (result.Failed → result.ret = 0) := by
  obtain ⟨slot, index, rest⟩ := bind_eq_ok returned
  have here : FileRdFails platform s fid n ↔
      (s.driver.fileDescs.get slot).filePos < (s.driver.fileDescs.get slot).size ∧
        u64 ((s.driver.fileDescs.get slot).filePos + n) ≤ (s.driver.fileDescs.get slot).size ∧
        CacheRdFails platform s.driver.blkCache
          (u64 (clusterToPos s.driver (s.driver.fileDescs.get slot).cluster + (s.driver.fileDescs.get slot).filePos))
            n s.world := by
    constructor
    · rintro ⟨other, same, fails⟩
      rw [index] at same
      cases same
      exact fails
    · exact fun fails => ⟨slot, index, fails⟩
  rw [here]
  unfold FileRd.Failed
  simp only at rest
  split at rest
  · cases rest
    exact ⟨iff_of_false nothing_failed fun fails => by omega, fun failed => absurd failed nothing_failed⟩
  · split at rest
    · cases rest
      exact ⟨iff_of_false nothing_failed fun fails => by omega, fun failed => absurd failed nothing_failed⟩
    · next inside fits =>
        obtain ⟨rd, cached, finished⟩ := bind_eq_ok rest
        obtain ⟨failed, hidden⟩ := blkCacheRd_failure cached
        cases finished
        simp only [Option.some.injEq, exists_eq_left', Nat.lt_of_not_ge inside, Nat.le_of_not_gt fits, true_and]
        exact ⟨failed, fun down => if_neg (not_not.mpr (hidden down))⟩

theorem vfsRd_failure {file : VfsFile} {n : Nat} {result : VfsRd World}
    (returned : vfsRd platform vfs file n = .ok result) :
    (result.Failed ↔ VfsRdFails platform vfs file n) ∧ (result.Failed → result.ret = 0) := by
  unfold vfsRd at returned
  unfold VfsRdFails VfsRd.Failed
  split at returned
  · next null =>
      cases returned
      exact ⟨iff_of_false nothing_failed fun fails => fails.1 null, fun failed => absurd failed nothing_failed⟩
  · next valid =>
      cases mounted : (vfs.drives.get file.slot).driver with
      | none =>
          rw [mounted] at returned
          cases returned
      | some driver =>
          rw [mounted] at returned
          obtain ⟨isOpen, opened, rest⟩ := bind_eq_ok returned
          simp only [valid, not_false_eq_true, true_and, Option.some.injEq, exists_eq_left']
          cases isOpen with
          | false =>
              cases rest
              refine ⟨iff_of_false nothing_failed fun fails => ?_, fun failed => absurd failed nothing_failed⟩
              cases opened.symm.trans fails.1
          | true =>
              obtain ⟨read, below, finished⟩ := bind_eq_ok rest
              obtain ⟨failed, hidden⟩ := fatVfsRd_failure below
              cases finished
              simp only [Option.some.injEq, exists_eq_left', opened, true_and]
              exact ⟨failed, fun down => if_neg (not_not.mpr (hidden down))⟩

/-- A failed read of one block is recorded as the loaded block. -/
theorem blkCacheRd_records {addr n : Nat} {result : CacheRd World}
    (returned : blkCacheRd platform cache addr n world = .ok result) (failed : result.Failed)
    (oneBlock : addr / cache.blkdev.blkSize = u64 (addr + n - 1) / cache.blkdev.blkSize) :
    result.cache.loadedBlk = addr / cache.blkdev.blkSize := by
  obtain ⟨issued, made, failed⟩ := failed
  unfold blkCacheRd at returned
  split at returned
  · cases returned
    cases made
  · split at returned
    · cases returned
    · rw [if_neg (not_not.mpr oneBlock)] at returned
      rcases blkCacheRdWithin_ok returned with
        ⟨_, _, read, _⟩ | ⟨filled, _, _, read, ⟨rejected, _, _⟩ | ⟨_, _, same⟩⟩
      · rw [read] at made
        cases made
      · rw [read] at made
        cases made
        exact absurd (blkdevRd_hides failed) rejected
      · rw [same]

theorem reported_iff {failed fails reported : Prop} (same : failed ↔ fails) (hidden : failed → ¬reported) :
    (failed → reported) ↔ ¬fails :=
  ⟨fun reports fails => hidden (same.mpr fails) (reports (same.mpr fails)), fun none failed =>
    absurd (same.mp failed) none⟩

/-- On every layer, a failure is reported for exactly the requests that do not run into one. -/
theorem device_failure_reported_iff (platform : Platform World) :
    (∀ (dev : Blkdev World) src n world, ((blkdevRd dev src n world).Failed → (blkdevRd dev src n world).ret ≠ 0) ↔
      ¬RdFails dev src n world) ∧
    (∀ (dev : Blkdev World) dst src n world,
    ((blkdevWr dev dst src n world).Failed → (blkdevWr dev dst src n world).ret ≠ 0) ↔
      ¬WrFails dev dst src n world) ∧
    (∀ cache addr n world result, blkCacheRd platform cache addr n world = .ok result →
      ((result.Failed → result.ret ≠ 0 ∧ result.cache.loadedBlk = cache.loadedBlk) ↔
        ¬CacheRdFails platform cache addr n world)) ∧
    (∀ s fid n result, fatVfsRd platform s fid n = .ok result →
      ((result.Failed → result.ret ≠ 0) ↔ ¬FileRdFails platform s fid n)) ∧
    ∀ vfs file n result, vfsRd platform vfs file n = .ok result →
      ((result.Failed → result.ret ≠ 0) ↔ ¬VfsRdFails platform vfs file n) := by
  refine ⟨fun dev src n world => ?_, fun dev dst src n world => ?_, fun cache addr n world result returned => ?_,
    fun s fid n result returned => ?_, fun vfs file n result returned => ?_⟩
  · exact reported_iff (blkdevRd_failed_iff src n) fun failed => not_not.mpr (blkdevRd_hides failed)
  · exact reported_iff (blkdevWr_failed_iff dst src n) fun failed => not_not.mpr (blkdevWr_hides failed)
  · obtain ⟨same, hidden⟩ := blkCacheRd_failure returned
    exact reported_iff same fun failed reported => reported.1 (hidden failed)
  · obtain ⟨same, hidden⟩ := fatVfsRd_failure returned
    exact reported_iff same fun failed => not_not.mpr (hidden failed)
  · obtain ⟨same, hidden⟩ := vfsRd_failure returned
    exact reported_iff same fun failed => not_not.mpr (hidden failed)

end

def removableDisk (contents : Nat → List UInt8) (nblk : Nat) : Blkdev Bool where
  rd src n present :=
    (if present then { ret := 0, data := (List.range' src n).flatMap contents } else { ret := 1, data := [] },
    present)
  wr _ _ _ present := (1, present)
  partBase := 0
  flags := 0
  devType := .diskDrive
  driver := .ataPio
  blkSize := 512
  nblk := nblk

/-- Drive 1 with a file of five bytes open as file 1. -/
def removableVfs : Vfs Bool where
  drives := (Vector.replicate maxDrives { driver := none, blkdev := 0, fs := vfNull, flags := 0 }).set 0 {
    driver := some {
      blkCache := (blkCacheCreate .zeroed (removableDisk stampBlock 4100) true).1
      fileDescs := (Vector.replicate fatMaxFileDescs .zero).set 0 { cluster := 2, size := 5, filePos := 0, flags := 3 }
        fatMaxFileDescs_pos
      sectorSize := 512
      clusterSize := 1
      firstDataSector := 3
      sectorCnt := 4100
      rootSectorCnt := 1
      dataSectorCnt := 4097
      clusterCnt := 4097 }
    blkdev := 0x1000
    fs := vfFat16
    flags := dfMounted } maxDrives_pos
  world := false

theorem device_failure_reported_iff_present :
    ∃ result, blkCacheRd .zeroed (blkCacheCreate .zeroed (removableDisk stampBlock 4100) true).1 512 5 true =
        .ok result ∧
      (result.Failed → result.ret ≠ 0 ∧ result.cache.loadedBlk = 4100) := by
  have returns : (blkCacheRd .zeroed (blkCacheCreate .zeroed (removableDisk stampBlock 4100) true).1 512 5
    true).toOption.isSome := by
    decide +kernel
  cases returned : blkCacheRd .zeroed (blkCacheCreate .zeroed (removableDisk stampBlock 4100) true).1 512 5 true with
  | error stop =>
      rw [returned] at returns
      cases returns
  | ok result =>
      refine ⟨result, rfl, ((device_failure_reported_iff .zeroed).2.2.1 _ 512 5 true _ returned).mpr fun fails => ?_⟩
      have read := fails.2
      rw [if_pos (by decide)] at read
      exact read.2.2 rfl

/-- The removed disk fails on every call, and no layer reports it: the reads return 0 and
garbage, which is kept as block 3, and so does the write. -/
theorem device_failure_hidden :
    ((removableDisk stampBlock 4100).rd 3 1 false).1.ret = 1 ∧
    ((removableDisk stampBlock 4100).wr 3 [] 1 false).1 = 1 ∧
      (blkdevRd (removableDisk stampBlock 4100) 3 1 false).ret = 0 ∧
      (blkdevWr (removableDisk stampBlock 4100) 3 [] 1 false).ret = 0 ∧
      (vfsRd .zeroed removableVfs { drive := 1, file := 1 } 5).toOption.map (fun result => (result.ret, result.dst)) =
        some (0, [0, 0, 0, 0, 0]) ∧
      ((vfsRd .zeroed removableVfs { drive := 1, file := 1 } 5).toOption.bind VfsRd.read).map FileRd.ret = some 0 ∧
      (((vfsRd .zeroed removableVfs { drive := 1, file := 1 } 5).toOption.bind VfsRd.read).bind FileRd.read).map
        (fun read => (read.ret, read.cache.loadedBlk, (read.read.bind BlkRd.call).map fun call => call.answer.ret)) =
          some (0, 3, some 1) := by
  decide +kernel

end Bwuhos
