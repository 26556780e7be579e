import Bwuhos.Vfs.Files

namespace Bwuhos

open Bwuhos.Data

/-! # Reading a file piece by piece

No read moves the position of its file.
-/

/-- The length and the bytes of a successful read of a file. -/
def VfsEvent.readOf (file : VfsFile) (event : VfsEvent) : Option (Nat × List UInt8) :=
  match event.call with
  | .rd other n => if other = file ∧ event.answer.ret = 0 then some (n.toNat, event.answer.dst) else none
  | _ => none

/-- Each read has the bytes of the device that follow those of the one before. -/
def BytesInTurn (contents : Nat → List UInt8) (blkSize : Nat) : Nat → List (Nat × List UInt8) → Prop
  | _, [] => True
  | addr, (n, dst) :: rest =>
      dst = deviceBytes contents blkSize addr n ∧ BytesInTurn contents blkSize (addr + n) rest

section

variable {World : Type} {platform : Platform World} {first last : VfsSession World} {events : List VfsEvent}
  {vfs : Vfs World} {file : VfsFile} {slot : Fin maxDrives} {index : Fin fatMaxFileDescs} {fd : FatFileDesc}

theorem fileHandle_valid : ¬NullHandle (fileHandle slot index) := by
  have small : (slot : Nat) < 255 := slot.isLt
  intro null
  rcases null with noDrive | noFile
  · have zero := congrArg UInt8.toNat noDrive
    simp only [fileHandle, UInt8.toNat_ofNat', UInt8.toNat_zero] at zero
    omega
  · exact Nat.succ_ne_zero _ noFile

theorem vfsAbsTell_open (isDesc : vfs.desc slot index = some fd) (isOpen : fd.IsOpen) :
    vfsAbsTell vfs (fileHandle slot index) = .ok (0, some fd.filePos) := by
  obtain ⟨driver, set, rfl⟩ := Option.map_eq_some_iff.mp isDesc
  have bound : (fileHandle slot index).file < 2 ^ 64 := by
    have small : (index : Nat) < 128 := index.isLt
    simp only [fileHandle]
    omega
  have here : (vfs.drives.get (fileHandle slot index).slot).driver = some driver := by
    rw [fileHandle_slot]
    exact set
  have checked := fatVfsIsOpen_inside driver (Nat.succ_ne_zero _) bound (Eq.refl (fileHandle slot index).file)
  rw [vfsAbsTell, onOpenFile_checked fileHandle_valid here checked, decide_eq_true isOpen, if_pos rfl, fatVfsAbsTell]
  have number : fdIndex (fileHandle slot index).file = .ok index := fdIndex_slot index
  rw [number]
  rfl

/-- Without a seek or a close of the file its descriptor stays as it is. -/
theorem vfs_run_desc_kept (run : (vfsSystem platform).Run first events last)
    (isDesc : first.vfs.desc slot index = some fd) (isOpen : fd.IsOpen)
    (undisturbed : ∀ event ∈ events, ¬event.Seeks (fileHandle slot index) ∧ ¬event.Closes (fileHandle slot index)) :
    last.vfs.desc slot index = some fd := by
  induction run with
  | nil => exact isDesc
  | @cons first middle last event events taken rest ih =>
      apply ih
      · obtain ⟨notSought, notClosed⟩ := undisturbed event List.mem_cons_self
        obtain ⟨inRange, fuel, fault, driveId, deInfo, world, vfs, returned, rfl⟩ := taken
        cases VfsCall.run_desc slot index inRange returned with
        | kept same => exact same.trans isDesc
        | opened flags opens closed => exact absurd isOpen (closed fd isDesc)
        | closed closes => exact absurd closes notClosed
        | sought seeks => exact absurd seeks notSought
      · intro other member
        exact undisturbed other (List.mem_cons_of_mem _ member)

theorem vfsRd_empty {read : VfsRd World} (bound : file.file < 2 ^ 64)
    (returned : vfsRd platform vfs file 0 = .ok read) : read.dst = [] := by
  rw [vfsRd_eq] at returned
  obtain rejected | ⟨index, driver, _, here, _, _, acted⟩ := onOpenFile_ok bound returned
  · rw [rejected]
  · obtain ⟨result, made, finished⟩ := bind_eq_ok acted
    obtain rfl := Except.ok.inj finished
    obtain ⟨slot, _, rest⟩ := bind_eq_ok made
    dsimp only at rest
    split at rest
    · obtain rfl := Except.ok.inj rest
      rfl
    · split at rest
      · obtain rfl := Except.ok.inj rest
        rfl
      · obtain ⟨rd, cached, ended⟩ := bind_eq_ok rest
        obtain rfl := Except.ok.inj ended
        rw [blkCacheRd, if_pos rfl] at cached
        obtain rfl := Except.ok.inj cached
        rfl

/-- A read of no bytes returns none. -/
theorem vfs_run_empty_reads (run : (vfsSystem platform).Run first events last) {read : Nat × List UInt8}
    (member : read ∈ events.filterMap (VfsEvent.readOf file)) (empty : read.1 = 0) : read = (0, []) := by
  induction run with
  | nil => exact absurd member List.not_mem_nil
  | @cons first middle last event events taken rest ih =>
      rw [List.filterMap_cons] at member
      cases isRead : event.readOf file with
      | none =>
          rw [isRead] at member
          exact ih member
      | some here =>
          rw [isRead] at member
          rcases List.mem_cons.mp member with rfl | later
          · obtain ⟨inRange, fuel, fault, driveId, deInfo, world, vfs, returned, _⟩ := taken
            cases called : event.call with
            | rd other n =>
                rw [called] at returned inRange
                simp only [VfsEvent.readOf, called, Option.ite_none_right_eq_some, Option.some.injEq] at isRead
                obtain ⟨_, rfl⟩ := isRead
                obtain ⟨result, made, same⟩ := map_eq_ok returned
                rw [show n.toNat = 0 from empty] at made
                have answer := (Prod.mk.inj same).1
                have bytes : event.answer.dst = [] := by
                  rw [← answer]
                  exact vfsRd_empty inRange made
                exact Prod.ext empty bytes
            | openFile path flags => simp [VfsEvent.readOf, called] at isRead
            | close other => simp [VfsEvent.readOf, called] at isRead
            | seek other whence off => simp [VfsEvent.readOf, called] at isRead
            | absTell other => simp [VfsEvent.readOf, called] at isRead
          · exact ih later

theorem bytesInTurn_empty {contents : Nat → List UInt8} {blkSize addr : Nat} {reads : List (Nat × List UInt8)}
    (empty : ∀ read ∈ reads, read = (0, [])) : BytesInTurn contents blkSize addr reads := by
  induction reads with
  | nil => trivial
  | cons read rest ih =>
      rw [empty read List.mem_cons_self]
      exact ⟨rfl, ih fun other member => empty other (List.mem_cons_of_mem _ member)⟩

/-- In every run without a seek or a close of an open file, the successful reads of the file
deliver the bytes one after the other and the position ends behind them just if all of them
are reads of no bytes. -/
theorem vfs_sequential_reads_iff (platform : Platform World) (run : (vfsSystem platform).Run first events last)
    (slot : Fin maxDrives) (index : Fin fatMaxFileDescs) (driver : FatDriver World)
    (set : (first.vfs.drives.get slot).driver = some driver) (isOpen : (driver.fileDescs.get index).IsOpen)
    (undisturbed : ∀ event ∈ events, ¬event.Seeks (fileHandle slot index) ∧ ¬event.Closes (fileHandle slot index))
    (contents : Nat → List UInt8) :
    BytesInTurn contents driver.blkCache.blkdev.blkSize
          (clusterToPos driver (driver.fileDescs.get index).cluster + (driver.fileDescs.get index).filePos)
          (events.filterMap (VfsEvent.readOf (fileHandle slot index))) ∧
        vfsAbsTell last.vfs (fileHandle slot index) =
          .ok (0, some ((driver.fileDescs.get index).filePos +
            ((events.filterMap (VfsEvent.readOf (fileHandle slot index))).map Prod.fst).sum)) ↔
      ∀ read ∈ events.filterMap (VfsEvent.readOf (fileHandle slot index)), read.1 = 0 := by
  have kept := vfs_run_desc_kept run (desc_of_driver set) isOpen undisturbed
  rw [vfsAbsTell_open kept isOpen]
  have empty_iff : ((events.filterMap (VfsEvent.readOf (fileHandle slot index))).map Prod.fst).sum = 0 ↔
      ∀ read ∈ events.filterMap (VfsEvent.readOf (fileHandle slot index)), read.1 = 0 := by
    rw [List.sum_eq_zero_iff_forall_eq_nat]
    simp only [List.mem_map, forall_exists_index, and_imp, forall_apply_eq_imp_iff₂]
  apply Iff.intro
  · intro inTurn
    have told := Option.some.inj (Prod.mk.inj (Except.ok.inj inTurn.2)).2
    exact empty_iff.mp (by omega)
  · intro empty
    refine ⟨bytesInTurn_empty fun read member => vfs_run_empty_reads run member (empty read member), ?_⟩
    rw [empty_iff.mpr empty, Nat.add_zero]

end

/-- The small volume with something in its file. -/
def countingContents : Nat → List UInt8
  | 5 => padBlock [10, 20, 30, 40, 50, 60, 70]
  | blk => smallContents blk

def countingDriver : FatDriver Unit :=
  { smallDriver with blkCache := (blkCacheCreate .zeroed (memoryDisk countingContents 4100) ()).1 }

def countingVfs : Vfs Unit where
  drives := bootDrives.set 0
    { driver := some countingDriver, blkdev := 0x1000, fs := vfFat16, flags := dfMounted } maxDrives_pos
  world := ()

structure TwoReads where
  opened : Vfs Unit
  first : VfsAnswer
  second : VfsAnswer
  last : Vfs Unit

def countingRd (n : UInt64) (vfs : Vfs Unit) : Except Stop (VfsAnswer × Vfs Unit) :=
  (VfsCall.rd { drive := 1, file := 1 } n).run .zeroed 40 .nullDeref 0 (direntInfo [] []) vfs

/-- Open `1:d/b.txt`, and read it twice. -/
def openReadTwice (n : UInt64) : Except Stop TwoReads := do
  let opened ← (VfsCall.openFile [0x31, 0x3a, 0x64, 0x2f, 0x62, 0x2e, 0x74, 0x78, 0x74] 1).run .zeroed 40 .nullDeref 0
    (direntInfo [] []) countingVfs
  let first ← countingRd n opened.2
  let second ← countingRd n first.2
  return { opened := opened.2, first := first.1, second := second.1, last := second.2 }

theorem countingRd_step {n : UInt64} {answer : VfsAnswer} {session : VfsSession Unit} {vfs : Vfs Unit}
    (read : countingRd n session.vfs = .ok (answer, vfs)) :
    (vfsSystem .zeroed).step session ⟨.rd { drive := 1, file := 1 } n, answer⟩
      { vfs, history := ⟨.rd { drive := 1, file := 1 } n, answer⟩ :: session.history } :=
  @vfsSystem_step Unit .zeroed session ⟨.rd { drive := 1, file := 1 } n, answer⟩ _ _ _ _ _
    (Nat.one_lt_two_pow (by decide)) read

theorem openReadTwice_zero : (openReadTwice 0).toOption.map (fun reads =>
    (reads.first.ret, reads.second.ret,
      (reads.opened.desc ⟨0, maxDrives_pos⟩ ⟨0, fatMaxFileDescs_pos⟩).map FatFileDesc.flags)) =
      some (0, 0, some 3) := by
  decide +kernel

/-- Two reads of no bytes. -/
theorem vfs_sequential_reads_iff_nothing :
    ∃ (first last : VfsSession Unit) (events : List VfsEvent) (driver : FatDriver Unit),
      (first.vfs.drives.get ⟨0, maxDrives_pos⟩).driver = some driver ∧
        (vfsSystem .zeroed).Run first events last ∧ events.length = 2 ∧
        BytesInTurn countingContents driver.blkCache.blkdev.blkSize
          (clusterToPos driver (driver.fileDescs.get ⟨0, fatMaxFileDescs_pos⟩).cluster +
            (driver.fileDescs.get ⟨0, fatMaxFileDescs_pos⟩).filePos)
          (events.filterMap (VfsEvent.readOf (fileHandle ⟨0, maxDrives_pos⟩ ⟨0, fatMaxFileDescs_pos⟩))) := by
  obtain ⟨reads, made, values⟩ := ok_of_map_toOption openReadTwice_zero
  obtain ⟨opened, _, afterOpen⟩ := bind_eq_ok made
  obtain ⟨first, firstRead, afterFirst⟩ := bind_eq_ok afterOpen
  obtain ⟨second, secondRead, finished⟩ := bind_eq_ok afterFirst
  obtain rfl := Except.ok.inj finished
  have flags := (Prod.mk.inj (Prod.mk.inj values).2).2
  obtain ⟨fd, isDesc, open3⟩ := Option.map_eq_some_iff.mp flags
  obtain ⟨driver, set, rfl⟩ := Option.map_eq_some_iff.mp isDesc
  have isOpen : (driver.fileDescs.get ⟨0, fatMaxFileDescs_pos⟩).IsOpen := by
    rw [FatFileDesc.IsOpen, open3]
    decide
  have run : (vfsSystem .zeroed).Run { vfs := opened.2, history := [] } _ _ :=
    .cons (countingRd_step firstRead) (.cons (countingRd_step secondRead) (.nil _))
  refine ⟨_, _, _, driver, set, run, rfl, ?_⟩
  apply ((vfs_sequential_reads_iff .zeroed run ⟨0, maxDrives_pos⟩ ⟨0, fatMaxFileDescs_pos⟩ driver set isOpen ?_
    countingContents).mpr ?_).1
  · intro event member
    simp only [List.mem_cons, List.not_mem_nil, or_false] at member
    rcases member with rfl | rfl <;> simp [VfsEvent.Seeks, VfsEvent.Closes]
  · intro read member
    obtain ⟨event, isEvent, isRead⟩ := List.mem_filterMap.mp member
    simp only [List.mem_cons, List.not_mem_nil, or_false] at isEvent
    rcases isEvent with rfl | rfl
    all_goals
      simp only [VfsEvent.readOf, Option.ite_none_right_eq_some, Option.some.injEq] at isRead
      rw [← isRead.2]
      rfl

/-- The second read returns the first two bytes again, and the position is still the start. -/
theorem vfs_reads_repeat :
    (openReadTwice 2).toOption.map (fun reads =>
        (reads.first.ret, reads.first.dst, reads.second.ret, reads.second.dst)) = some (0, [10, 20], 0, [10, 20]) ∧
    (openReadTwice 2).toOption.map (fun reads =>
        (reads.opened.desc ⟨0, maxDrives_pos⟩ ⟨0, fatMaxFileDescs_pos⟩).map fun fd =>
          deviceBytes countingContents 512 (clusterToPos countingDriver fd.cluster + fd.filePos + 2) 2) =
      some (some [30, 40]) ∧
    (openReadTwice 2).toOption.map (fun reads =>
        (vfsAbsTell reads.last { drive := 1, file := 1 }).toOption) = some (some (0, some 0)) := by
  decide +kernel

end Bwuhos
