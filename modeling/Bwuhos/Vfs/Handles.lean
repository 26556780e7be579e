import Bwuhos.Fat.Search
import Bwuhos.Vfs

namespace Bwuhos

open Bwuhos.Data

/-! # File handles

What the calls of the VFS do with a handle that was not made by `vfs_open`.
-/

/-- The handle stands for an open descriptor of a mounted drive. -/
structure HandleAccepted {World : Type} (vfs : Vfs World) (file : VfsFile) (driver : FatDriver World)
    (index : Fin fatMaxFileDescs) : Prop where
  mounted : (vfs.drives.get file.slot).IsMounted
  present : (vfs.drives.get file.slot).driver = some driver
  number : file.file = index + 1
  isOpen : (driver.fileDescs.get index).IsOpen

/-- The call refuses the handle, or has its effect on an open descriptor of a mounted drive. -/
def HandleRespected {World Result : Type} (vfs : Vfs World) (file : VfsFile) (Refuses : Result → Prop)
    (Effect : FatDriver World → Fin fatMaxFileDescs → Except Stop Result → Prop)
    (outcome : Except Stop Result) : Prop :=
  (∃ result, outcome = .ok result ∧ Refuses result) ∨
    ∃ driver index, HandleAccepted vfs file driver index ∧ Effect driver index outcome

abbrev NullHandle (file : VfsFile) : Prop := file.drive = 0 ∨ file.file = 0

/-- The drive has a driver, the descriptor is one of the table, and it is not an open one
of a drive that is not mounted. -/
def HandleSound {World : Type} (vfs : Vfs World) (file : VfsFile) : Prop :=
  ∃ driver, (vfs.drives.get file.slot).driver = some driver ∧ file.file ≤ fatMaxFileDescs ∧
    ∀ index : Fin fatMaxFileDescs, file.file = index + 1 → (driver.fileDescs.get index).IsOpen →
      (vfs.drives.get file.slot).IsMounted

section

variable {World Result : Type} {vfs : Vfs World} {file : VfsFile} {driver : FatDriver World} {rejected : Result}
  {act : FatDriver World → Except Stop Result} {Refuses : Result → Prop}
  {Effect : FatDriver World → Fin fatMaxFileDescs → Except Stop Result → Prop} {index : Fin fatMaxFileDescs}

theorem fdIndex_iff (valid : file.file ≠ 0) (bound : file.file < 2 ^ 64) :
    fdIndex file.file = .ok index ↔ file.file = index + 1 := by
  have previous : u64Sub file.file 1 = file.file - 1 := u64Sub_of_le (by omega) bound
  have small := index.isLt
  unfold fdIndex
  rw [previous]
  split
  · next inside =>
      simp only [Except.ok.injEq, Fin.ext_iff]
      omega
  · next outside =>
      refine iff_of_false (fun impossible => by cases impossible) fun same => outside ?_
      omega

theorem fdIndex_outside (bound : file.file < 2 ^ 64) (outside : fatMaxFileDescs < file.file) :
    fdIndex file.file = .error .outOfBounds := by
  have previous : u64Sub file.file 1 = file.file - 1 := u64Sub_of_le (by omega) bound
  unfold fdIndex
  rw [previous, dif_neg (by omega)]

theorem onOpenFile_null (null : NullHandle file) : onOpenFile vfs file rejected act = .ok rejected :=
  if_pos null

theorem onOpenFile_unset (valid : ¬NullHandle file) (unset : (vfs.drives.get file.slot).driver = none) :
    onOpenFile vfs file rejected act = .error .nullDeref := by
  rw [onOpenFile, if_neg valid, unset]

theorem fatVfsIsOpen_outside (driver : FatDriver World) (bound : file.file < 2 ^ 64)
    (outside : fatMaxFileDescs < file.file) : fatVfsIsOpen driver file.file = .error .outOfBounds := by
  rw [fatVfsIsOpen, fdIndex_outside bound outside]
  rfl

theorem fatVfsIsOpen_inside (driver : FatDriver World) (valid : file.file ≠ 0) (bound : file.file < 2 ^ 64)
    (number : file.file = index + 1) :
    fatVfsIsOpen driver file.file = .ok (decide (driver.fileDescs.get index).IsOpen) := by
  rw [fatVfsIsOpen, (fdIndex_iff valid bound).mpr number]
  rfl

theorem onOpenFile_stops {stop : Stop} (valid : ¬NullHandle file)
    (set : (vfs.drives.get file.slot).driver = some driver) (stops : fatVfsIsOpen driver file.file = .error stop) :
    onOpenFile vfs file rejected act = .error stop := by
  unfold onOpenFile
  simp only [valid, if_false, set, stops]
  rfl

theorem onOpenFile_checked {isOpen : Bool} (valid : ¬NullHandle file)
    (set : (vfs.drives.get file.slot).driver = some driver) (checked : fatVfsIsOpen driver file.file = .ok isOpen) :
    onOpenFile vfs file rejected act = if isOpen then act driver else .ok rejected := by
  unfold onOpenFile
  simp only [valid, if_false, set, checked]
  cases isOpen <;> rfl

theorem HandleSound.of_index (set : (vfs.drives.get file.slot).driver = some driver) (number : file.file = index + 1) :
    HandleSound vfs file ↔ ((driver.fileDescs.get index).IsOpen → (vfs.drives.get file.slot).IsMounted) := by
  have bound := index.isLt
  constructor
  · rintro ⟨other, same, _, mounted⟩ isOpen
    rw [set] at same
    cases same
    exact mounted index number isOpen
  · refine fun mounted => ⟨driver, set, by omega, fun other same isOpen => mounted ?_⟩
    have equal : other = index := Fin.ext (by omega)
    rwa [equal] at isOpen

/-- The checks of a handle are enough exactly for null handles and sound ones. -/
theorem onOpenFile_respected_iff (bound : file.file < 2 ^ 64) (refuses : Refuses rejected)
    (acts : ∀ driver index, fdIndex file.file = .ok index → Effect driver index (act driver) ∧
      ∀ result, act driver = .ok result → ¬Refuses result) :
    HandleRespected vfs file Refuses Effect (onOpenFile vfs file rejected act) ↔
      NullHandle file ∨ HandleSound vfs file := by
  have refused : HandleRespected vfs file Refuses Effect (.ok rejected) := Or.inl ⟨rejected, rfl, refuses⟩
  by_cases valid : NullHandle file
  · rw [onOpenFile_null valid]
    exact iff_of_true refused (Or.inl valid)
  have positive : file.file ≠ 0 := fun zero => valid (Or.inr zero)
  rw [or_iff_right valid]
  cases set : (vfs.drives.get file.slot).driver with
  | none =>
      rw [onOpenFile_unset valid set]
      refine iff_of_false ?_ fun ⟨_, missing, _⟩ => by cases set.symm.trans missing
      rintro (⟨result, stopped, _⟩ | ⟨driver, index, accepted, _⟩)
      · cases stopped
      · cases set.symm.trans accepted.present
  | some driver =>
      by_cases outside : fatMaxFileDescs < file.file
      · rw [onOpenFile_stops valid set (fatVfsIsOpen_outside driver bound outside)]
        refine iff_of_false ?_ fun ⟨_, _, inside, _⟩ => by omega
        rintro (⟨result, stopped, _⟩ | ⟨other, index, accepted, _⟩)
        · cases stopped
        · have := accepted.number
          omega
      · obtain ⟨index, number⟩ : ∃ index : Fin fatMaxFileDescs, file.file = index + 1 :=
          ⟨⟨file.file - 1, by omega⟩, by dsimp only; omega⟩
        obtain ⟨effect, acted⟩ := acts driver index ((fdIndex_iff positive bound).mpr number)
        rw [onOpenFile_checked valid set (fatVfsIsOpen_inside driver positive bound number),
          HandleSound.of_index set number]
        by_cases isOpen : (driver.fileDescs.get index).IsOpen
        · rw [decide_eq_true isOpen, if_pos rfl]
          constructor
          · rintro (⟨result, returned, refused⟩ | ⟨other, position, accepted, _⟩)
            · exact absurd refused (acted result returned)
            · exact fun _ => accepted.mounted
          · exact fun mounted => Or.inr ⟨driver, index, ⟨mounted isOpen, set, number, isOpen⟩, effect⟩
        · rw [decide_eq_false isOpen, if_neg Bool.false_ne_true]
          exact iff_of_true refused fun opened => absurd opened isOpen

/-- `vfs_rd` checks its handle as the other calls do. -/
theorem vfsRd_eq (platform : Platform World) (n : Nat) : vfsRd platform vfs file n =
    onOpenFile vfs file { ret := 1, dst := [], read := none, vfs } fun driver => do
      let read ← fatVfsRd platform { driver, world := vfs.world } file.file n
      let after := { vfs.setDriver file.slot read.state.driver with world := read.state.world }
      return { ret := if read.ret ≠ 0 then 1 else 0, dst := read.dst, read := some read, vfs := after } := rfl

def ClosesDesc (vfs : Vfs World) (file : VfsFile) (driver : FatDriver World) (index : Fin fatMaxFileDescs)
    (outcome : Except Stop (Nat × Vfs World)) : Prop :=
  outcome = .ok (0, vfs.setDriver file.slot (driver.setDesc index .zero))

def TellsDesc (driver : FatDriver World) (index : Fin fatMaxFileDescs)
    (outcome : Except Stop (Nat × Option Nat)) : Prop :=
  outcome = .ok (0, some (driver.fileDescs.get index).filePos)

def SeeksDesc (vfs : Vfs World) (file : VfsFile) (whence : Nat) (off : Int) (driver : FatDriver World)
    (index : Fin fatMaxFileDescs) (outcome : Except Stop (Nat × Vfs World)) : Prop :=
  ∃ member, vfsWhence whence = some member ∧
    outcome = .ok (0, vfs.setDriver file.slot (driver.setDesc index ((driver.fileDescs.get index).seek member off)))

def ReadsDesc (platform : Platform World) (vfs : Vfs World) (file : VfsFile) (n : Nat) (driver : FatDriver World)
    (outcome : Except Stop (VfsRd World)) : Prop :=
  ∀ result, outcome = .ok result →
    ∃ read, fatVfsRd platform { driver, world := vfs.world } file.file n = .ok read ∧ result.read = some read

/-- Each call respects its handle exactly when the handle is null or sound; `vfs_seek`
also if the whence is unknown. -/
theorem vfs_handle_respected_iff (platform : Platform World) (vfs : Vfs World) (file : VfsFile)
    (bound : file.file < 2 ^ 64) :
    (HandleRespected vfs file (fun result => result.1 ≠ 0 ∧ result.2 = vfs) (ClosesDesc vfs file) (vfsClose vfs file) ↔
      NullHandle file ∨ HandleSound vfs file) ∧
    (HandleRespected vfs file (fun result => result.1 ≠ 0 ∧ result.2 = none) TellsDesc (vfsAbsTell vfs file) ↔
      NullHandle file ∨ HandleSound vfs file) ∧
    (∀ whence off, HandleRespected vfs file (fun result => result.1 ≠ 0 ∧ result.2 = vfs)
    (SeeksDesc vfs file whence off)
        (vfsSeek vfs file whence off) ↔ NullHandle file ∨ vfsWhence whence = none ∨ HandleSound vfs file) ∧
    ∀ n, HandleRespected vfs file (fun result => result.ret ≠ 0 ∧ result.vfs = vfs ∧ result.read = none)
        (fun driver _ => ReadsDesc platform vfs file n driver) (vfsRd platform vfs file n) ↔
      NullHandle file ∨ HandleSound vfs file := by
  refine ⟨?_, ?_, fun whence off => ?_, fun n => ?_⟩
  · refine onOpenFile_respected_iff bound ⟨Nat.one_ne_zero, rfl⟩ fun driver index here => ?_
    simp only [ClosesDesc, fatVfsClose, here]
    refine ⟨rfl, fun result returned refused => ?_⟩
    cases returned
    exact refused.1 rfl
  · refine onOpenFile_respected_iff bound ⟨Nat.one_ne_zero, rfl⟩ fun driver index here => ?_
    simp only [TellsDesc, fatVfsAbsTell, here]
    refine ⟨rfl, fun result returned refused => ?_⟩
    cases returned
    exact refused.1 rfl
  · unfold vfsSeek
    by_cases null : NullHandle file
    · rw [if_pos null]
      exact iff_of_true (Or.inl ⟨_, rfl, Nat.one_ne_zero, rfl⟩) (Or.inl null)
    · rw [if_neg null]
      cases member : vfsWhence whence with
      | none => exact iff_of_true (Or.inl ⟨_, rfl, Nat.one_ne_zero, rfl⟩) (Or.inr (Or.inl rfl))
      | some member' =>
          simp only [reduceCtorEq, false_or]
          refine onOpenFile_respected_iff bound ⟨Nat.one_ne_zero, rfl⟩ fun driver index here => ?_
          simp only [SeeksDesc, member, fatVfsSeek, here]
          refine ⟨⟨member', rfl, rfl⟩, fun result returned refused => ?_⟩
          cases returned
          exact refused.1 rfl
  · rw [vfsRd_eq]
    refine onOpenFile_respected_iff bound ⟨Nat.one_ne_zero, rfl, rfl⟩ fun driver index here => ⟨?_, ?_⟩
    · intro result returned
      obtain ⟨read, made, finished⟩ := bind_eq_ok returned
      cases finished
      exact ⟨read, made, rfl⟩
    · intro result returned refused
      obtain ⟨read, made, finished⟩ := bind_eq_ok returned
      cases finished
      cases refused.2.2

end

def smallVfs : Vfs Unit where
  drives :=
    bootDrives.set 0 { driver := some smallDriver, blkdev := 0x1000, fs := vfFat16, flags := dfMounted } maxDrives_pos
  world := ()

theorem smallVfs_mounted : (smallVfs.drives.get ⟨0, maxDrives_pos⟩).IsMounted := by
  have flags : dfMounted &&& dfMounted ≠ 0 := by decide
  have drive : smallVfs.drives.get ⟨0, maxDrives_pos⟩ =
      { driver := some smallDriver, blkdev := 0x1000, fs := vfFat16, flags := dfMounted } :=
    Vector.getElem_set_self maxDrives_pos
  rw [drive]
  exact flags

theorem vfs_handle_respected_iff_closed : HandleRespected smallVfs { drive := 1, file := 3 }
    (fun result => result.1 ≠ 0 ∧ result.2 = smallVfs) (ClosesDesc smallVfs { drive := 1, file := 3 })
    (vfsClose smallVfs { drive := 1, file := 3 }) := by
  have sound : HandleSound smallVfs { drive := 1, file := 3 } :=
    ⟨smallDriver, rfl, by decide, fun _ _ _ => smallVfs_mounted⟩
  exact ((vfs_handle_respected_iff .zeroed smallVfs { drive := 1, file := 3 } (by decide)).1).mpr (Or.inr sound)

/-- Drive 2 is not mounted: its `is_open` is null.  File 129 of drive 1 is behind the table. -/
theorem vfs_handle_unchecked :
    ¬(smallVfs.drives.get ⟨1, by decide⟩).IsMounted ∧
      vfsClose smallVfs { drive := 2, file := 1 } = .error .nullDeref ∧
      vfsClose smallVfs { drive := 1, file := 129 } = .error .outOfBounds ∧
      ¬HandleRespected smallVfs { drive := 2, file := 1 } (fun result => result.1 ≠ 0 ∧ result.2 = smallVfs)
        (ClosesDesc smallVfs { drive := 2, file := 1 }) (vfsClose smallVfs { drive := 2, file := 1 }) ∧
      ¬HandleRespected smallVfs { drive := 1, file := 129 } (fun result => result.1 ≠ 0 ∧ result.2 = smallVfs)
        (ClosesDesc smallVfs { drive := 1, file := 129 }) (vfsClose smallVfs { drive := 1, file := 129 }) := by
  have unmounted : vfsClose smallVfs { drive := 2, file := 1 } = .error .nullDeref :=
    onOpenFile_unset (by decide) (by rfl)
  have behind : vfsClose smallVfs { drive := 1, file := 129 } = .error .outOfBounds :=
    onOpenFile_stops (by decide) (by rfl) (fatVfsIsOpen_outside smallDriver (by decide) (by decide))
  refine ⟨by decide +kernel, unmounted, behind, ?_, ?_⟩
  · rintro (⟨result, returned, _⟩ | ⟨driver, index, accepted, _⟩)
    · cases unmounted.symm.trans returned
    · cases accepted.present
  · rintro (⟨result, returned, _⟩ | ⟨driver, index, accepted, _⟩)
    · cases behind.symm.trans returned
    · have number : 129 = index.val + 1 := accepted.number
      have bound : index.val < 128 := index.isLt
      omega

end Bwuhos
