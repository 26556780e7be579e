import Bwuhos.Fat.OpenFiles
import Bwuhos.Vfs.Handles
import Bwuhos.Vfs.Open

namespace Bwuhos

open Bwuhos.Data

/-! # Runs of calls on files

The descriptors of all drives, under any sequence of calls of the VFS.
-/

inductive VfsCall where
  | openFile (path : List UInt8) (flags : UInt8)
  | close (file : VfsFile)
  | seek (file : VfsFile) (whence : Nat) (off : Int64)
  | absTell (file : VfsFile)
  | rd (file : VfsFile) (n : UInt64)

/-- What a call returns, `*out` where an open writes it, and what a read copies to `dst`. -/
structure VfsAnswer where
  ret : Nat
  out : Option VfsFile
  dst : List UInt8
deriving Repr, DecidableEq

structure VfsEvent where
  call : VfsCall
  answer : VfsAnswer

namespace VfsCall

/-- A path is a string, and a file number a `size_t`. -/
def InRange : VfsCall → Prop
  | openFile path _ => ∀ ch ∈ path, ch ≠ 0
  | close file => file.file < 2 ^ 64
  | seek file _ _ => file.file < 2 ^ 64
  | absTell file => file.file < 2 ^ 64
  | rd file _ => file.file < 2 ^ 64

/-- `fault`, `driveId` and `deInfo` are as for `vfsOpen`. -/
def run {World : Type} (platform : Platform World) (fuel : Nat) (fault : Stop) (driveId : Int) (deInfo : FatDirentInfo)
    (vfs : Vfs World) : VfsCall → Except Stop (VfsAnswer × Vfs World)
  | openFile path flags => (vfsOpen platform fuel fault driveId deInfo vfs path flags.toNat).map fun (ret, out, vfs) =>
      ({ ret, out, dst := [] }, vfs)
  | close file => (vfsClose vfs file).map fun (ret, vfs) => ({ ret, out := none, dst := [] }, vfs)
  | seek file whence off => (vfsSeek vfs file whence off.toInt).map fun (ret, vfs) =>
      ({ ret, out := none, dst := [] }, vfs)
  | absTell file => (vfsAbsTell vfs file).map fun (ret, _) => ({ ret, out := none, dst := [] }, vfs)
  | rd file n => (vfsRd platform vfs file n.toNat).map fun read =>
      ({ ret := read.ret, out := none, dst := read.dst }, read.vfs)

end VfsCall

namespace VfsEvent

/-- A successful open that produced a file with some flags. -/
def Opens (file : VfsFile) (flags : UInt8) (event : VfsEvent) : Prop :=
  (∃ path, event.call = .openFile path flags) ∧ event.answer.ret = 0 ∧ event.answer.out = some file

/-- A successful close of a file. -/
def Closes (file : VfsFile) (event : VfsEvent) : Prop := event.call = .close file ∧ event.answer.ret = 0

def Seeks (file : VfsFile) (event : VfsEvent) : Prop := ∃ whence off, event.call = .seek file whence off

end VfsEvent

/-- The table of drives, and the calls made so far, the last one first. -/
structure VfsSession (World : Type) where
  vfs : Vfs World
  history : List VfsEvent

/-- The handle of a descriptor. -/
def fileHandle (slot : Fin maxDrives) (index : Fin fatMaxFileDescs) : VfsFile :=
  { drive := .ofNat (slot + 1), file := index + 1 }

section

variable {World : Type}

/-- The descriptor with an index on the drive in a slot. -/
def Vfs.desc (vfs : Vfs World) (slot : Fin maxDrives) (index : Fin fatMaxFileDescs) : Option FatFileDesc :=
  (vfs.drives.get slot).driver.map fun driver => driver.fileDescs.get index

/-- Calls on files in any order, from a table of drives without open files.  The world may
change in any way between two calls. -/
def vfsSystem (platform : Platform World) : TransitionSystem (VfsSession World) VfsEvent where
  initial session :=
    session.history = [] ∧ ∀ slot index fd, session.vfs.desc slot index = some fd → ¬fd.IsOpen
  step before event after := event.call.InRange ∧ ∃ fuel fault driveId deInfo world vfs,
    event.call.run platform fuel fault driveId deInfo { before.vfs with world } = .ok (event.answer, vfs) ∧
      after = { vfs, history := event :: before.history }

end

/-- A call that is made before the world has changed. -/
theorem vfsSystem_step {World : Type} {platform : Platform World} {session : VfsSession World} {event : VfsEvent}
    {fuel : Nat} {fault : Stop} {driveId : Int} {deInfo : FatDirentInfo} {vfs : Vfs World}
    (inRange : event.call.InRange)
    (returned : event.call.run platform fuel fault driveId deInfo session.vfs = .ok (event.answer, vfs)) :
    (vfsSystem platform).step session event { vfs, history := event :: session.history } :=
  ⟨inRange, fuel, fault, driveId, deInfo, session.vfs.world, vfs, returned, rfl⟩

/-- What a call does to one descriptor. -/
inductive DescStep (event : VfsEvent) (file : VfsFile) (before after : Option FatFileDesc) : Prop
  | kept (same : after = before) (notOpened : ∀ flags, ¬event.Opens file flags) (notClosed : ¬event.Closes file)
  | opened (flags : UInt8) (opens : event.Opens file flags) (closed : ∀ fd, before = some fd → ¬fd.IsOpen)
  | closed (closes : event.Closes file) (zero : after = some .zero)
  | sought (seeks : event.Seeks file) (fd : FatFileDesc) (was : before = some fd) (isOpen : fd.IsOpen)

section Table

variable {World Result : Type} {platform : Platform World} {vfs : Vfs World} {slot other : Fin maxDrives}
  {index position : Fin fatMaxFileDescs} {driver new : FatDriver World} {file : VfsFile} {fd : FatFileDesc}

theorem fileHandle_slot : (fileHandle slot index).slot = slot := by
  have small : (slot : Nat) < 255 := slot.isLt
  apply Fin.ext
  simp only [VfsFile.slot, fileHandle, UInt8.toNat_ofNat']
  omega

theorem fileHandle_inj : fileHandle slot index = fileHandle other position ↔ slot = other ∧ index = position := by
  apply Iff.intro
  · intro same
    refine ⟨?_, Fin.ext (Nat.succ.inj (congrArg VfsFile.file same))⟩
    rw [← @fileHandle_slot slot index, same, fileHandle_slot]
  · intro same
    rw [same.1, same.2]

theorem fileHandle_of_index (valid : ¬NullHandle file) (number : file.file = index + 1) :
    file = fileHandle file.slot index := by
  obtain ⟨drive, fid⟩ := file
  have positive : drive.toNat ≠ 0 := fun zero => valid (Or.inl (UInt8.toNat_inj.mp zero))
  have back : UInt8.ofNat (drive.toNat - 1 + 1) = drive := by
    rw [Nat.sub_add_cancel (Nat.one_le_iff_ne_zero.mpr positive), UInt8.ofNat_toNat]
  simp only at number
  simp only [fileHandle, VfsFile.slot, back, number]

theorem desc_setDriver_self : (vfs.setDriver slot driver).desc slot index = some (driver.fileDescs.get index) := by
  simp only [Vfs.desc, Vfs.setDriver, Table.get_set_self, Option.map_some]

theorem desc_setDriver_other (different : other ≠ slot) :
    (vfs.setDriver slot driver).desc other index = vfs.desc other index := by
  simp only [Vfs.desc, Vfs.setDriver, Table.get_set_other different]

theorem desc_of_driver (set : (vfs.drives.get slot).driver = some driver) :
    vfs.desc slot index = some (driver.fileDescs.get index) := by
  rw [Vfs.desc, set]
  rfl

/-- A driver with the same descriptors. -/
theorem desc_unchanged (set : (vfs.drives.get slot).driver = some driver) (same : new.fileDescs = driver.fileDescs) :
    (vfs.setDriver slot new).desc other position = vfs.desc other position := by
  by_cases here : other = slot
  · rw [here, desc_setDriver_self, same, desc_of_driver set]
  · exact desc_setDriver_other here

/-- A driver with one new descriptor. -/
theorem desc_updated (set : (vfs.drives.get slot).driver = some driver)
    (updated : new.fileDescs = driver.fileDescs.set index fd index.isLt) :
    (vfs.setDriver slot new).desc slot index = some fd ∧
      (fileHandle other position ≠ fileHandle slot index →
        (vfs.setDriver slot new).desc other position = vfs.desc other position) := by
  apply And.intro
  · rw [desc_setDriver_self, updated, Table.get_set_self]
  · intro different
    by_cases here : other = slot
    · have elsewhere : position ≠ index := fun same => different (fileHandle_inj.mpr ⟨here, same⟩)
      rw [here, desc_setDriver_self, updated, Table.get_set_other elsewhere, desc_of_driver set]
    · exact desc_setDriver_other here

/-- A call that gets past the checks of its handle is made on an open descriptor. -/
theorem onOpenFile_ok {rejected result : Result} {act : FatDriver World → Except Stop Result}
    (bound : file.file < 2 ^ 64) (returned : onOpenFile vfs file rejected act = .ok result) :
    result = rejected ∨ ∃ index driver, file = fileHandle file.slot index ∧ fdIndex file.file = .ok index ∧
      (vfs.drives.get file.slot).driver = some driver ∧ (driver.fileDescs.get index).IsOpen ∧
      act driver = .ok result := by
  by_cases valid : NullHandle file
  · rw [onOpenFile_null valid] at returned
    exact Or.inl (Except.ok.inj returned).symm
  · have positive : file.file ≠ 0 := fun zero => valid (Or.inr zero)
    cases set : (vfs.drives.get file.slot).driver with
    | none =>
        rw [onOpenFile_unset valid set] at returned
        cases returned
    | some driver =>
        by_cases outside : fatMaxFileDescs < file.file
        · rw [onOpenFile_stops valid set (fatVfsIsOpen_outside driver bound outside)] at returned
          cases returned
        · obtain ⟨index, number⟩ : ∃ index : Fin fatMaxFileDescs, file.file = index + 1 :=
            ⟨⟨file.file - 1, by omega⟩, by dsimp only; omega⟩
          rw [onOpenFile_checked valid set (fatVfsIsOpen_inside driver positive bound number)] at returned
          by_cases isOpen : (driver.fileDescs.get index).IsOpen
          · rw [decide_eq_true isOpen, if_pos rfl] at returned
            exact Or.inr ⟨index, driver, fileHandle_of_index valid number, (fdIndex_iff positive bound).mpr number, rfl,
              isOpen, returned⟩
          · rw [decide_eq_false isOpen, if_neg Bool.false_ne_true] at returned
            exact Or.inl (Except.ok.inj returned).symm

end Table

section Calls

variable {World : Type} {platform : Platform World} {fuel : Nat} {fault : Stop} {driveId : Int} {deInfo : FatDirentInfo}
  {vfs after : Vfs World} {path : List UInt8} {file : VfsFile} {call : VfsCall} {answer : VfsAnswer}
  (slot : Fin maxDrives) (index : Fin fatMaxFileDescs)

/-- An open leaves all descriptors alone and fails, or takes one that was closed. -/
theorem fatVfsOpenAt_descs {s last : FatState World} {start flags fid : Nat} (characters : ∀ ch ∈ path, ch ≠ 0)
    (returned : fatVfsOpenAt platform fuel fault deInfo s path start flags = .ok (fid, last)) :
    fid = 0 ∧ last.driver.fileDescs = s.driver.fileDescs ∨
      ∃ (index : Fin fatMaxFileDescs) (fd : FatFileDesc), fid = index + 1 ∧ ¬(s.driver.fileDescs.get index).IsOpen ∧
        last.driver.fileDescs = s.driver.fileDescs.set index fd index.isLt := by
  by_cases inside : start ≤ path.length
  · rw [fatVfsOpenAt_eq characters inside] at returned
    obtain ⟨middle, only, failed | ⟨found, _, outcome⟩⟩ := fatVfsOpen_cases returned
    · exact Or.inl ⟨failed.1, failed.2 ▸ only.fileDescs⟩
    · obtain failed | ⟨index, fd, free, opened, _⟩ := openDirent_cases middle found flags
      · rw [failed] at outcome
        obtain ⟨rfl, rfl⟩ := Prod.mk.inj outcome
        exact Or.inl ⟨rfl, only.fileDescs⟩
      · rw [opened] at outcome
        obtain ⟨rfl, rfl⟩ := Prod.mk.inj outcome
        refine Or.inr ⟨index, fd, rfl, only.fileDescs ▸ free, ?_⟩
        rw [← only.fileDescs]
        rfl
  · rw [fatVfsOpenAt_beyond (Nat.lt_of_not_le inside)] at returned
    cases returned

theorem vfsOpen_ok {flags ret : Nat} {out : Option VfsFile}
    (returned : vfsOpen platform fuel fault driveId deInfo vfs path flags = .ok (ret, out, after)) :
    ret = 1 ∧ out = none ∧ after = vfs ∨ ∃ slot start driver opened, (vfs.drives.get slot).driver = some driver ∧
      fatVfsOpenAt platform fuel fault deInfo { driver, world := vfs.world } path start flags = .ok opened ∧
      openedFile vfs slot opened = (ret, out, after) := by
  obtain ⟨drive, parsed, _⟩ := bind_eq_ok returned
  cases drive with
  | none =>
      rw [vfsOpen_rejected parsed] at returned
      cases returned
      exact Or.inl ⟨rfl, rfl, rfl⟩
  | some found =>
      obtain ⟨slot, start⟩ := found
      cases set : (vfs.drives.get slot).driver with
      | none =>
          rw [vfsOpen_unset parsed set] at returned
          cases returned
      | some driver =>
          rw [vfsOpen_calls parsed set] at returned
          obtain ⟨opened, called, same⟩ := map_eq_ok returned
          exact Or.inr ⟨slot, start, driver, opened, set, called, same⟩

theorem vfsOpen_desc {flags : UInt8} {ret : Nat} {out : Option VfsFile} (characters : ∀ ch ∈ path, ch ≠ 0)
    (returned : vfsOpen platform fuel fault driveId deInfo vfs path flags.toNat = .ok (ret, out, after)) :
    DescStep ⟨.openFile path flags, ⟨ret, out, []⟩⟩ (fileHandle slot index) (vfs.desc slot index)
      (after.desc slot index) := by
  have notClosed : ¬(⟨.openFile path flags, ⟨ret, out, []⟩⟩ : VfsEvent).Closes (fileHandle slot index) :=
    fun closes => by cases closes.1
  obtain ⟨rfl, rfl, rfl⟩ | ⟨here, start, driver, ⟨fid, s⟩, set, called, outcome⟩ := vfsOpen_ok returned
  · exact .kept rfl (fun _ opens => by cases opens.2.1) notClosed
  · obtain ⟨rfl, same⟩ | ⟨position, fd, rfl, free, updated⟩ := fatVfsOpenAt_descs characters called
    · obtain ⟨rfl, rest⟩ := Prod.mk.inj outcome
      obtain ⟨rfl, rfl⟩ := Prod.mk.inj rest
      exact .kept (desc_unchanged set same) (fun _ opens => by cases opens.2.1) notClosed
    · obtain ⟨rfl, rest⟩ := Prod.mk.inj outcome
      obtain ⟨rfl, rfl⟩ := Prod.mk.inj rest
      by_cases own : fileHandle slot index = fileHandle here position
      · obtain ⟨rfl, rfl⟩ := fileHandle_inj.mp own
        refine .opened flags ⟨⟨path, rfl⟩, rfl, rfl⟩ fun old was => ?_
        rw [desc_of_driver set] at was
        rw [← Option.some.inj was]
        exact free
      · refine .kept ((desc_updated set updated).2 own) (fun _ opens => own ?_) notClosed
        exact (Option.some.inj opens.2.2).symm

theorem vfsClose_desc {ret : Nat} (bound : file.file < 2 ^ 64) (returned : vfsClose vfs file = .ok (ret, after)) :
    DescStep ⟨.close file, ⟨ret, none, []⟩⟩ (fileHandle slot index) (vfs.desc slot index) (after.desc slot index) := by
  have notOpened : ∀ flags, ¬(⟨.close file, ⟨ret, none, []⟩⟩ : VfsEvent).Opens (fileHandle slot index) flags :=
    fun _ opens => by cases opens.2.2
  obtain rejected | ⟨position, driver, same, here, set, _, closed⟩ := onOpenFile_ok bound returned
  · obtain ⟨rfl, rfl⟩ := Prod.mk.inj rejected
    exact .kept rfl notOpened fun closes => by cases closes.2
  · rw [fatVfsClose, here] at closed
    obtain ⟨rfl, rfl⟩ := Prod.mk.inj (Except.ok.inj closed)
    have updated := @desc_updated World vfs file.slot slot position index driver (driver.setDesc position .zero) .zero
      set rfl
    by_cases own : fileHandle slot index = file
    · rw [same] at own
      obtain ⟨rfl, rfl⟩ := fileHandle_inj.mp own
      exact .closed ⟨congrArg VfsCall.close same, rfl⟩ updated.1
    · refine .kept (updated.2 (same ▸ own)) notOpened fun closes => own ?_
      exact (VfsCall.close.inj closes.1).symm

theorem vfsSeek_desc {ret whence : Nat} {off : Int64} (bound : file.file < 2 ^ 64)
    (returned : vfsSeek vfs file whence off.toInt = .ok (ret, after)) :
    DescStep ⟨.seek file whence off, ⟨ret, none, []⟩⟩ (fileHandle slot index) (vfs.desc slot index)
      (after.desc slot index) := by
  have notOpened : ∀ flags,
      ¬(⟨.seek file whence off, ⟨ret, none, []⟩⟩ : VfsEvent).Opens (fileHandle slot index) flags :=
    fun _ opens => by cases opens.2.2
  have notClosed : ¬(⟨.seek file whence off, ⟨ret, none, []⟩⟩ : VfsEvent).Closes (fileHandle slot index) :=
    fun closes => by cases closes.1
  rw [vfsSeek] at returned
  split at returned
  · cases returned
    exact .kept rfl notOpened notClosed
  · split at returned
    · cases returned
      exact .kept rfl notOpened notClosed
    · obtain rejected | ⟨position, driver, same, here, set, isOpen, sought⟩ := onOpenFile_ok bound returned
      · obtain ⟨rfl, rfl⟩ := Prod.mk.inj rejected
        exact .kept rfl notOpened notClosed
      · rw [fatVfsSeek, here] at sought
        obtain ⟨rfl, rfl⟩ := Prod.mk.inj (Except.ok.inj sought)
        by_cases own : fileHandle slot index = file
        · rw [same] at own
          obtain ⟨rfl, rfl⟩ := fileHandle_inj.mp own
          exact .sought ⟨whence, off, congrArg (VfsCall.seek · whence off) same⟩ _ (desc_of_driver set) isOpen
        · exact .kept ((desc_updated set rfl).2 (same ▸ own)) notOpened notClosed

/-- A read that succeeds is made on an open descriptor, and no read changes one. -/
theorem vfsRd_desc {n : Nat} {read : VfsRd World} (bound : file.file < 2 ^ 64)
    (returned : vfsRd platform vfs file n = .ok read) :
    read.vfs.desc slot index = vfs.desc slot index ∧
      (read.ret = 0 →
        ∃ index fd, file = fileHandle file.slot index ∧ vfs.desc file.slot index = some fd ∧ fd.IsOpen) := by
  rw [vfsRd_eq] at returned
  obtain rejected | ⟨position, driver, same, here, set, isOpen, acted⟩ := onOpenFile_ok bound returned
  · rw [rejected]
    exact ⟨rfl, fun success => by cases success⟩
  · obtain ⟨result, made, finished⟩ := bind_eq_ok acted
    obtain rfl := Except.ok.inj finished
    exact ⟨desc_unchanged set (fatVfsRd_onlyReads made).fileDescs, fun _ =>
      ⟨position, _, same, desc_of_driver set, isOpen⟩⟩

theorem VfsCall.run_desc (inRange : call.InRange)
    (returned : call.run platform fuel fault driveId deInfo vfs = .ok (answer, after)) :
    DescStep ⟨call, answer⟩ (fileHandle slot index) (vfs.desc slot index) (after.desc slot index) := by
  cases call with
  | openFile path flags =>
      obtain ⟨result, opened, same⟩ := map_eq_ok returned
      obtain ⟨rfl, rfl⟩ := Prod.mk.inj same
      exact vfsOpen_desc slot index inRange opened
  | close file =>
      obtain ⟨result, closed, same⟩ := map_eq_ok returned
      obtain ⟨rfl, rfl⟩ := Prod.mk.inj same
      exact vfsClose_desc slot index inRange closed
  | seek file whence off =>
      obtain ⟨result, sought, same⟩ := map_eq_ok returned
      obtain ⟨rfl, rfl⟩ := Prod.mk.inj same
      exact vfsSeek_desc slot index inRange sought
  | absTell file =>
      obtain ⟨result, told, same⟩ := map_eq_ok returned
      obtain ⟨rfl, rfl⟩ := Prod.mk.inj same
      exact .kept rfl (fun _ opens => by cases opens.2.2) fun closes => by cases closes.1
  | rd file n =>
      obtain ⟨result, read, same⟩ := map_eq_ok returned
      obtain ⟨rfl, rfl⟩ := Prod.mk.inj same
      exact .kept (vfsRd_desc slot index inRange read).1 (fun _ opens => by cases opens.2.2) fun closes => by
        cases closes.1

end Calls

end Bwuhos
