import Bwuhos.Fat.Runs

namespace Bwuhos

open Bwuhos.Data

/-! # Where a seek goes

`fat_vfs_seek` clamps the offset it is given, not the position it arrives at, and compares
it with sizes in unsigned arithmetic.
-/

/-- The position that an offset is counted from. -/
def FatFileDesc.seekBase (fd : FatFileDesc) : VfsWhence → Nat
  | .start => 0
  | .cur => fd.filePos
  | .end => fd.size

/-- The position that a seek asks for, moved into the file. -/
def FatFileDesc.seekTarget (fd : FatFileDesc) (whence : VfsWhence) (off : Int) : Nat :=
  (min (max (fd.seekBase whence + off) 0) fd.size).toNat

section

variable {World : Type} {fd : FatFileDesc} {driver : FatDriver World} {slot : Fin fatMaxFileDescs} {off : Int}

theorem seek_start (small : fd.size < 2 ^ 63) (representable : off < 2 ^ 63) :
    (fd.seek .start off).filePos = fd.seekTarget .start off := by
  simp only [FatFileDesc.seek, FatFileDesc.seekTarget, FatFileDesc.seekBase]
  by_cases negative : off < 0
  · rw [if_pos negative]
    have clamped : min (max ((0 : Nat) + off) 0) (fd.size : Int) = 0 := by omega
    rw [clamped]
    simp [toU64, toS64]
  · rw [if_neg negative]
    have same : toU64 off = off.toNat := by unfold toU64; omega
    rw [same, toU64_toS64 (by split <;> omega)]
    split <;> omega

theorem seek_end (small : fd.size < 2 ^ 63) (representable : -2 ^ 63 ≤ off) :
    (fd.seek .end off).filePos = fd.seekTarget .end off := by
  simp only [FatFileDesc.seek, FatFileDesc.seekTarget, FatFileDesc.seekBase, toS64_of_lt small, toU64, u64]
  split <;> split <;> omega

/-- Forwards, or from the start of the file, the current position moves as asked. -/
theorem seek_cur_forward (small : fd.size < 2 ^ 63) (inside : fd.filePos ≤ fd.size) (representable : off < 2 ^ 63)
    (forward : 0 ≤ off ∨ fd.filePos = 0) : (fd.seek .cur off).filePos = fd.seekTarget .cur off := by
  have room : u64Sub fd.size fd.filePos = fd.size - fd.filePos := u64Sub_of_le inside (by omega)
  simp only [FatFileDesc.seek, FatFileDesc.seekTarget, FatFileDesc.seekBase, room,
    toS64_of_lt (show fd.filePos < 2 ^ 63 by omega)]
  obtain ⟨moved, value, nonnegative⟩ : ∃ moved : Int,
      (if off < -(fd.filePos : Int) then -(fd.filePos : Int) else off) = moved ∧ moved = max off 0 := by
    refine ⟨_, rfl, ?_⟩
    split <;> omega
  rw [value]
  have same : toU64 moved = moved.toNat := by unfold toU64; omega
  rw [same, toU64_toS64 (by split <;> omega), u64_of_lt (by split <;> omega)]
  split <;> omega

/-- Backwards, the offset is taken for a huge one and the file is left at its end. -/
theorem seek_cur_backward (small : fd.size < 2 ^ 63) (inside : fd.filePos ≤ fd.size) (representable : -2 ^ 63 ≤ off)
    (backward : off < 0) (moved : fd.filePos ≠ 0) : (fd.seek .cur off).filePos = fd.size := by
  have room : u64Sub fd.size fd.filePos = fd.size - fd.filePos := u64Sub_of_le inside (by omega)
  simp only [FatFileDesc.seek, room, toS64_of_lt (show fd.filePos < 2 ^ 63 by omega)]
  obtain ⟨clamped, value, negative⟩ : ∃ clamped : Int,
      (if off < -(fd.filePos : Int) then -(fd.filePos : Int) else off) = clamped ∧
        -(fd.filePos : Int) ≤ clamped ∧ clamped < 0 := by
    refine ⟨_, rfl, ?_⟩
    split <;> omega
  have huge : toU64 clamped > fd.size - fd.filePos := by
    unfold toU64
    omega
  rw [value, if_pos huge, toU64_toS64 (by omega), u64_of_lt (by omega)]
  omega

theorem seek_filePos_iff (whence : VfsWhence) (small : fd.size < 2 ^ 63) (inside : fd.filePos ≤ fd.size)
    (representable : -2 ^ 63 ≤ off ∧ off < 2 ^ 63) :
    (fd.seek whence off).filePos = fd.seekTarget whence off ↔ ¬(whence = .cur ∧ off < 0 ∧ fd.filePos ≠ 0) := by
  cases whence with
  | start => exact iff_of_true (seek_start small representable.2) (by simp)
  | cur =>
      by_cases backward : off < 0 ∧ fd.filePos ≠ 0
      · rw [seek_cur_backward small inside representable.1 backward.1 backward.2]
        refine iff_of_false (fun same => ?_) fun forward => forward ⟨rfl, backward⟩
        simp only [FatFileDesc.seekTarget, FatFileDesc.seekBase] at same
        omega
      · refine iff_of_true (seek_cur_forward small inside representable.2 ?_) fun wrong => backward wrong.2
        omega
  | «end» => exact iff_of_true (seek_end small representable.1) (by simp)

theorem fatVfsSeek_slot (driver : FatDriver World) (slot : Fin fatMaxFileDescs) (whence : VfsWhence) (off : Int) :
    fatVfsSeek driver (slot + 1) whence off =
      .ok (0, driver.setDesc slot ((driver.fileDescs.get slot).seek whence off)) := by
  unfold fatVfsSeek
  rw [fdIndex_slot]
  rfl

theorem setDesc_inj {left right : FatFileDesc} :
    driver.setDesc slot left = driver.setDesc slot right ↔ left = right := by
  constructor
  · intro same
    have slots := congrArg (fun driver : FatDriver World => driver.fileDescs.get slot) same
    simp only [setDesc_same] at slots
    exact slots
  · exact congrArg (driver.setDesc slot)

/-- A seek arrives at the position asked for, moved into the file, and changes nothing
else, unless it goes backwards from a current position that is not the start.  The sizes
of open files are small enough in every reachable state. -/
theorem fat_seek_clamped_iff (platform : Platform World) (dev : Blkdev World) :
    (∀ (driver : FatDriver World) (slot : Fin fatMaxFileDescs) (whence : VfsWhence) (off : Int),
      (driver.fileDescs.get slot).IsOpen →
      (driver.fileDescs.get slot).filePos ≤ (driver.fileDescs.get slot).size →
      (driver.fileDescs.get slot).size < 2 ^ 63 → -2 ^ 63 ≤ off → off < 2 ^ 63 →
        (fatVfsSeek driver (slot + 1) whence off =
            .ok (0, driver.setDesc slot { driver.fileDescs.get slot with
              filePos := (driver.fileDescs.get slot).seekTarget whence off }) ↔
          ¬(whence = .cur ∧ off < 0 ∧ (driver.fileDescs.get slot).filePos ≠ 0))) ∧
    ∀ session, (fatSystem platform dev).Reachable session → ∀ slot : Fin fatMaxFileDescs,
      (session.driver.fileDescs.get slot).IsOpen →
        (session.driver.fileDescs.get slot).filePos ≤ (session.driver.fileDescs.get slot).size ∧
          (session.driver.fileDescs.get slot).size < 2 ^ 32 := by
  constructor
  · intro driver slot whence off _ inside small lower upper
    rw [fatVfsSeek_slot, ← seek_filePos_iff whence small inside ⟨lower, upper⟩]
    constructor
    · intro same
      have moved := setDesc_inj.mp (Prod.mk.inj (Except.ok.inj same)).2
      exact congrArg FatFileDesc.filePos moved
    · intro same
      rw [seek_frame, same]
  · intro session reached slot isOpen
    have ok := (fat_reachable_ok reached).slots slot
    exact ⟨ok.filePos isOpen, ok.size isOpen⟩

end

def seekDriver : FatDriver Unit :=
  smallDriver.setDesc ⟨0, fatMaxFileDescs_pos⟩ { cluster := 4, size := 7, filePos := 5, flags := 1 }

theorem fat_seek_clamped_iff_forward : fatVfsSeek seekDriver 1 .cur 1 =
    .ok (0, seekDriver.setDesc ⟨0, fatMaxFileDescs_pos⟩ { cluster := 4, size := 7, filePos := 6, flags := 1 }) := by
  have desc : seekDriver.fileDescs.get ⟨0, fatMaxFileDescs_pos⟩ =
      { cluster := 4, size := 7, filePos := 5, flags := 1 } := setDesc_same _ _
  have moved := (fat_seek_clamped_iff .zeroed smallDisk).1 seekDriver ⟨0, fatMaxFileDescs_pos⟩ .cur 1
  rw [desc] at moved
  exact (moved (by decide) (by decide) (by decide) (by decide) (by decide)).mpr (by decide)

theorem fat_seek_backward : fatVfsSeek seekDriver 1 .cur (-1) =
      .ok (0, seekDriver.setDesc ⟨0, fatMaxFileDescs_pos⟩ { cluster := 4, size := 7, filePos := 7, flags := 1 }) ∧
    fatVfsSeek seekDriver 1 .cur (-1) ≠
      .ok (0, seekDriver.setDesc ⟨0, fatMaxFileDescs_pos⟩ { cluster := 4, size := 7, filePos := 4, flags := 1 }) := by
  have desc : seekDriver.fileDescs.get ⟨0, fatMaxFileDescs_pos⟩ =
      { cluster := 4, size := 7, filePos := 5, flags := 1 } := setDesc_same _ _
  have ended : (seekDriver.fileDescs.get ⟨0, fatMaxFileDescs_pos⟩).seek .cur (-1) =
      { cluster := 4, size := 7, filePos := 7, flags := 1 } := by
    rw [desc]
    decide
  have sought : fatVfsSeek seekDriver 1 .cur (-1) = _ := fatVfsSeek_slot seekDriver ⟨0, fatMaxFileDescs_pos⟩ .cur (-1)
  rw [sought, ended]
  refine ⟨rfl, fun same => ?_⟩
  have wrong := setDesc_inj.mp (Prod.mk.inj (Except.ok.inj same)).2
  exact absurd wrong (by decide)

end Bwuhos
