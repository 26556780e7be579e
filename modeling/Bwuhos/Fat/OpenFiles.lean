import Bwuhos.Fat.Resolve

namespace Bwuhos

open Bwuhos.Data

/-! # Open files

Which descriptors the calls of the VFS change, over whole runs.
-/

/-- A closed descriptor is zero; the position of an open one is inside its file. -/
structure SlotOk (fd : FatFileDesc) : Prop where
  closed : ¬fd.IsOpen → fd = .zero
  size : fd.IsOpen → fd.size < 2 ^ 32
  filePos : fd.IsOpen → fd.filePos ≤ fd.size

section Descriptors

variable {World : Type} {fd : FatFileDesc} {driver : FatDriver World}

theorem zero_closed : ¬FatFileDesc.zero.IsOpen := by decide

/-- No descriptor of a new driver is open. -/
theorem fresh_closed (slot : Fin fatMaxFileDescs) :
    ¬((Vector.replicate fatMaxFileDescs FatFileDesc.zero).get slot).IsOpen := by
  rw [Table.get_replicate]
  exact zero_closed

theorem SlotOk.zero : SlotOk .zero :=
  ⟨fun _ => rfl, fun isOpen => absurd isOpen zero_closed, fun isOpen => absurd isOpen zero_closed⟩

theorem SlotOk.bounds (ok : SlotOk fd) : fd.size < 2 ^ 32 ∧ fd.filePos ≤ fd.size := by
  by_cases isOpen : fd.IsOpen
  · exact ⟨ok.size isOpen, ok.filePos isOpen⟩
  · rw [ok.closed isOpen]
    decide

theorem seek_frame (fd : FatFileDesc) (whence : VfsWhence) (off : Int) :
    fd.seek whence off = { fd with filePos := (fd.seek whence off).filePos } := by
  cases whence <;> rfl

/-- A seek stays inside the file, whatever its offset. -/
theorem seek_inside (whence : VfsWhence) (off : Int) (small : fd.size < 2 ^ 32) (inside : fd.filePos ≤ fd.size) :
    (fd.seek whence off).filePos ≤ fd.size := by
  cases whence with
  | start =>
      simp only [FatFileDesc.seek]
      generalize (if off < 0 then 0 else off) = clamped
      have bound := toU64_lt clamped
      split
      · exact Nat.le_of_eq (toU64_toS64 (by omega))
      · rw [toU64_toS64 bound]
        omega
  | cur =>
      have room : u64Sub fd.size fd.filePos = fd.size - fd.filePos := u64Sub_of_le inside (by omega)
      simp only [FatFileDesc.seek, room]
      generalize (if off < -toS64 fd.filePos then -toS64 fd.filePos else off) = clamped
      have bound := toU64_lt clamped
      split <;> rw [toU64_toS64 (by omega), u64_of_lt (by omega)] <;> omega
  | «end» =>
      simp only [FatFileDesc.seek, toS64_of_lt (show fd.size < 2 ^ 63 by omega), toU64, u64]
      split <;> split <;> omega

theorem SlotOk.seek (ok : SlotOk fd) (whence : VfsWhence) (off : Int) : SlotOk (fd.seek whence off) := by
  have inside := seek_inside whence off ok.bounds.1 ok.bounds.2
  rw [seek_frame]
  refine ⟨fun closed => ?_, ok.size, fun _ => inside⟩
  have zero : fd = .zero := ok.closed closed
  have start : (fd.seek whence off).filePos = 0 := Nat.le_zero.mp (zero ▸ inside)
  rw [start, zero]
  rfl

theorem findSlot_some {slot : Fin fatMaxFileDescs} (found : findSlot driver = some slot) :
    ¬(driver.fileDescs.get slot).IsOpen := by
  have free := List.find?_some found
  exact of_decide_eq_true free

theorem findSlot_none_iff :
    findSlot driver = none ↔ ∀ slot : Fin fatMaxFileDescs, (driver.fileDescs.get slot).IsOpen := by
  simp [findSlot, List.find?_eq_none]

theorem setDesc_same (slot : Fin fatMaxFileDescs) (fd : FatFileDesc) :
    (driver.setDesc slot fd).fileDescs.get slot = fd :=
  Table.get_set_self

theorem setDesc_other {slot other : Fin fatMaxFileDescs} (different : other ≠ slot) (fd : FatFileDesc) :
    (driver.setDesc slot fd).fileDescs.get other = driver.fileDescs.get other :=
  Table.get_set_other different

theorem fdIndex_slot (slot : Fin fatMaxFileDescs) : fdIndex (slot + 1) = .ok slot := by
  have bound : (slot : Nat) < 128 := slot.isLt
  have index : u64Sub (slot + 1) 1 = slot := u64Sub_of_le (Nat.le_add_left 1 slot) (by omega)
  unfold fdIndex
  simp only [index]
  exact dif_pos slot.isLt

theorem openDirent_cases (s : FatState World) (deInfo : FatDirentInfo) (flags : Nat) :
    openDirent s deInfo flags = (0, s) ∨ ∃ slot : Fin fatMaxFileDescs, ∃ fd, ¬(s.driver.fileDescs.get slot).IsOpen ∧
      openDirent s deInfo flags = ((slot : Nat) + 1, { s with driver := s.driver.setDesc slot fd }) ∧
      fd.IsOpen ∧ fd.size = deInfo.size ∧ fd.filePos = 0 := by
  unfold openDirent
  split
  · exact Or.inl rfl
  · split
    · exact Or.inl rfl
    · cases found : findSlot s.driver with
      | none => exact Or.inl rfl
      | some slot =>
          refine Or.inr ⟨slot, _, findSlot_some found, rfl, ?_, ?_, ?_⟩
          · simp only [FatFileDesc.IsOpen]
            split <;> split <;> decide
          · rfl
          · rfl

/-- An open of a file with permitted flags fails only if there is no free slot. -/
theorem openDirent_full {s : FatState World} {deInfo : FatDirentInfo} {flags : Nat} (file : deInfo.attr &&& fdaDir = 0)
    (permitted : flags &&& vffWrite ≠ 0 → deInfo.attr &&& fdaRo = 0) (failed : (openDirent s deInfo flags).1 = 0)
    (slot : Fin fatMaxFileDescs) : (s.driver.fileDescs.get slot).IsOpen := by
  unfold openDirent at failed
  rw [if_neg (not_not.mpr file), if_neg (fun wrong => wrong.2 (permitted wrong.1))] at failed
  cases found : findSlot s.driver with
  | none => exact findSlot_none_iff.mp found slot
  | some free =>
      rw [found] at failed
      cases failed

end Descriptors

section Sizes

variable {World : Type} {platform : Platform World} {fuel : Nat} {s after : FatState World}

theorem direntFileSize_lt (ent : List UInt8) : direntFileSize ent < 2 ^ 32 := by
  have bytes : ∀ offset, byteAt ent offset < 2 ^ 8 := fun offset => UInt8.toNat_lt _
  have words : ∀ offset, le16 ent offset < 2 ^ 16 := fun offset => by
    have := bytes offset
    have := bytes (offset + 1)
    unfold le16
    omega
  have := words 28
  have := words (28 + 2)
  unfold direntFileSize le32
  omega

theorem fatGetDirentInfo_size {de : Nat} {dirent : DirentAt}
    (returned : fatGetDirentInfo platform fuel s de = .ok (some dirent, after)) : dirent.info.size < 2 ^ 32 := by
  refine loop_partial (fun _ => True) (fun result => ∀ dirent, result.1 = some dirent → dirent.info.size < 2 ^ 32)
    (fun _ _ _ _ => trivial) ?_ trivial returned dirent rfl
  rintro ⟨de, name, s⟩ ⟨result, last⟩ _ round dirent rfl
  obtain ⟨⟨ent, middle⟩, _, finished⟩ := bind_eq_ok round
  cases ent with
  | none => cases finished
  | some ent =>
      simp only at finished
      split at finished
      · cases finished
      · split at finished
        · cases finished
        · split at finished
          · obtain ⟨_, _, stored⟩ := bind_eq_ok finished
            cases stored
          · cases finished
            exact direntFileSize_lt ent

theorem enterDirent_size {de : Nat} {pathBuf : List UInt8} {deInfo : FatDirentInfo}
    (returned : enterDirent platform fuel s de pathBuf = .ok (some deInfo, after)) : deInfo.size < 2 ^ 32 := by
  obtain ⟨found, _, rest⟩ := bind_eq_ok returned
  split at rest
  · cases rest
  · obtain ⟨⟨dirent, last⟩, got, finished⟩ := bind_eq_ok rest
    cases dirent with
    | none => cases finished
    | some dirent =>
        cases finished
        exact fatGetDirentInfo_size got

theorem walkPath_size {path : List UInt8} {walk last : PathWalk}
    (named : pathComponents walk.pathBuf path ≠ [] ∨ walk.deInfo.size < 2 ^ 32)
    (returned : walkPath platform fuel path walk s = .ok (some last, after)) :
    last.pathBuf ≠ [] ∨ last.deInfo.size < 2 ^ 32 := by
  induction path generalizing walk s with
  | nil =>
      cases returned
      refine named.imp_left fun some empty => some ?_
      rw [empty]
      rfl
  | cons ch path ih =>
      rcases walkPath_cases returned with
        ⟨letter, rest⟩ | ⟨slash, empty, rest⟩ | ⟨_, _, _, absent⟩ | ⟨_, _, _, enter, rest⟩
      · rw [pathComponents_letter letter] at named
        exact ih named rest
      · rw [pathComponents_skip slash empty] at named
        exact ih named rest
      · cases absent
      · exact ih (Or.inr (enterDirent_size enter)) rest

theorem fatVfsOpen_cases {path : List UInt8} {uninit : FatDirentInfo} {flags ret : Nat}
    (returned : fatVfsOpen platform fuel uninit s path flags = .ok (ret, after)) :
    ∃ middle, OnlyReads platform s middle ∧ (ret = 0 ∧ after = middle ∨
      ∃ deInfo, (pathComponents [] path ≠ [] → deInfo.size < 2 ^ 32) ∧
        (ret, after) = openDirent middle deInfo flags) := by
  obtain ⟨⟨walked, middle⟩, walk, rest⟩ := bind_eq_ok returned
  have only := walkPath_onlyReads walk
  cases walked with
  | none =>
      cases rest
      exact ⟨_, only, Or.inl ⟨rfl, rfl⟩⟩
  | some last =>
      simp only at rest
      split at rest
      · next empty =>
          have size : pathComponents [] path ≠ [] → last.deInfo.size < 2 ^ 32 :=
            fun named => (walkPath_size (Or.inl named) walk).resolve_left (not_not.mpr empty)
          exact ⟨middle, only, Or.inr ⟨last.deInfo, size, (Except.ok.inj rest).symm⟩⟩
      · split at rest
        · cases rest
        · obtain ⟨⟨entered, final⟩, enter, finished⟩ := bind_eq_ok rest
          have only' := only.trans (enterDirent_onlyReads enter)
          cases entered with
          | none =>
              cases finished
              exact ⟨_, only', Or.inl ⟨rfl, rfl⟩⟩
          | some deInfo =>
              exact ⟨final, only', Or.inr ⟨deInfo, fun _ => enterDirent_size enter, (Except.ok.inj finished).symm⟩⟩

end Sizes

inductive FatCall where
  | openFile (path : List UInt8) (flags : UInt8)
  | close (fid : Nat)
  | seek (fid : Nat) (whence : VfsWhence) (off : Int64)
  | absTell (fid : Nat)
  | rd (fid : Nat) (n : UInt64)

namespace FatCall

/-- Paths have components, all short; handles have been returned by an open. -/
def Allowed (issued : List Nat) : FatCall → Prop
  | openFile path _ => pathComponents [] path ≠ [] ∧ ∀ name ∈ pathComponents [] path, name.length < 256
  | close fid => fid ∈ issued
  | seek fid _ _ => fid ∈ issued
  | absTell fid => fid ∈ issued
  | rd fid n => fid ∈ issued ∧ n.toNat < 2 ^ 63

def run {World : Type} (platform : Platform World) (fuel : Nat) (uninit : FatDirentInfo) (s : FatState World) :
    FatCall → Except Stop (Nat × FatState World)
  | openFile path flags => fatVfsOpen platform fuel uninit s path flags.toNat
  | close fid => (fatVfsClose s.driver fid).map fun (ret, driver) => (ret, { s with driver })
  | seek fid whence off => (fatVfsSeek s.driver fid whence off.toInt).map fun (ret, driver) => (ret, { s with driver })
  | absTell fid => (fatVfsAbsTell s.driver fid).map fun (ret, _) => (ret, s)
  | rd fid n => (fatVfsRd platform s fid n.toNat).map fun read => (read.ret, read.state)

def issues (ret : Nat) : FatCall → List Nat
  | openFile _ _ => if ret = 0 then [] else [ret]
  | _ => []

/-- What a call may do to the descriptors: an open takes a closed one and returns its
number, or fails and changes nothing; close and seek change their own one. -/
def Isolated (before after : Vector FatFileDesc fatMaxFileDescs) (ret : Nat) : FatCall → Prop
  | openFile _ _ => ret = 0 ∧ after = before ∨ ∃ slot : Fin fatMaxFileDescs, ret = slot + 1 ∧
      ¬(before.get slot).IsOpen ∧ (after.get slot).IsOpen ∧ ∀ other, other ≠ slot → after.get other = before.get other
  | close fid => ∀ other : Fin fatMaxFileDescs, (other : Nat) + 1 ≠ fid → after.get other = before.get other
  | seek fid _ _ => ∀ other : Fin fatMaxFileDescs, (other : Nat) + 1 ≠ fid → after.get other = before.get other
  | absTell _ => after = before
  | rd _ _ => after = before

end FatCall

structure FatEffect {World : Type} (platform : Platform World) (before after : FatDriver World) (call : FatCall)
    (ret : Nat) : Prop where
  driver : after = { before with fileDescs := after.fileDescs, blkCache := after.blkCache }
  cache : Relation.ReflTransGen (CacheStep platform) before.blkCache after.blkCache
  slots : ∀ slot : Fin fatMaxFileDescs, SlotOk (after.fileDescs.get slot)
  isolated : call.Isolated before.fileDescs after.fileDescs ret

section Calls

variable {World : Type} {platform : Platform World} {fuel ret : Nat} {s after : FatState World}
  {driver : FatDriver World} {slot : Fin fatMaxFileDescs} {fd : FatFileDesc}

theorem setDesc_slots (slots : ∀ slot : Fin fatMaxFileDescs, SlotOk (driver.fileDescs.get slot)) (new : SlotOk fd)
    (other : Fin fatMaxFileDescs) : SlotOk ((driver.setDesc slot fd).fileDescs.get other) := by
  by_cases same : other = slot
  · rw [same, setDesc_same]
    exact new
  · rw [setDesc_other same]
    exact slots other

theorem setDesc_effect {call : FatCall} (slots : ∀ slot : Fin fatMaxFileDescs, SlotOk (driver.fileDescs.get slot))
    (new : SlotOk fd)
    (isolated : call.Isolated driver.fileDescs (driver.setDesc slot fd).fileDescs ret) :
    FatEffect platform driver (driver.setDesc slot fd) call ret :=
  ⟨rfl, .refl, setDesc_slots slots new, isolated⟩

theorem OnlyReads.effect {call : FatCall} (only : OnlyReads platform s after)
    (slots : ∀ slot : Fin fatMaxFileDescs, SlotOk (s.driver.fileDescs.get slot))
    (isolated : call.Isolated s.driver.fileDescs s.driver.fileDescs ret) :
    FatEffect platform s.driver after.driver call ret :=
  ⟨by rw [only.driver], only.cache, only.fileDescs ▸ slots, only.fileDescs ▸ isolated⟩

theorem fatVfsOpen_effect {path : List UInt8} {uninit : FatDirentInfo} {flags : UInt8}
    (named : pathComponents [] path ≠ []) (slots : ∀ slot : Fin fatMaxFileDescs, SlotOk (s.driver.fileDescs.get slot))
    (returned : fatVfsOpen platform fuel uninit s path flags.toNat = .ok (ret, after)) :
    FatEffect platform s.driver after.driver (.openFile path flags) ret := by
  obtain ⟨middle, only, ⟨rfl, rfl⟩ | ⟨deInfo, small, outcome⟩⟩ := fatVfsOpen_cases returned
  · exact only.effect slots (Or.inl ⟨rfl, rfl⟩)
  · rcases openDirent_cases middle deInfo flags.toNat with failed | ⟨slot, fd, free, opened, isOpen, size, filePos⟩
    · rw [failed] at outcome
      cases outcome
      exact only.effect slots (Or.inl ⟨rfl, rfl⟩)
    · rw [opened] at outcome
      cases outcome
      have new : SlotOk fd :=
        ⟨fun closed => absurd isOpen closed, fun _ => size ▸ small named, fun _ => filePos ▸ Nat.zero_le _⟩
      refine ⟨?_, only.cache, setDesc_slots (only.fileDescs ▸ slots) new, Or.inr ⟨slot, rfl, ?_, ?_, ?_⟩⟩
      · rw [FatDriver.setDesc, only.driver]
      · exact only.fileDescs ▸ free
      · rw [setDesc_same]
        exact isOpen
      · intro other different
        rw [setDesc_other different, only.fileDescs]

theorem fatVfsRd_onlyReads {fid n : Nat} {read : FileRd World} (returned : fatVfsRd platform s fid n = .ok read) :
    OnlyReads platform s read.state := by
  obtain ⟨slot, _, rest⟩ := bind_eq_ok returned
  simp only at rest
  split at rest
  · cases rest
    exact .refl s
  · split at rest
    · cases rest
      exact .refl s
    · obtain ⟨rd, cached, finished⟩ := bind_eq_ok rest
      cases finished
      exact ⟨rfl, .single ⟨_, _, _, rd, cached, rfl⟩⟩

/-- Every call that returns keeps the descriptors and stays with its own one. -/
theorem FatCall.run_effect {call : FatCall} {issued : List Nat} {uninit : FatDirentInfo}
    (slots : ∀ slot : Fin fatMaxFileDescs, SlotOk (s.driver.fileDescs.get slot))
    (handles : ∀ fid ∈ issued, ∃ slot : Fin fatMaxFileDescs, fid = slot + 1) (allowed : call.Allowed issued)
    (returned : call.run platform fuel uninit s = .ok (ret, after)) :
    FatEffect platform s.driver after.driver call ret := by
  cases call with
  | openFile path flags => exact fatVfsOpen_effect allowed.1 slots returned
  | close fid =>
      obtain ⟨slot, rfl⟩ := handles fid allowed
      simp only [FatCall.run, fatVfsClose, fdIndex_slot] at returned
      cases returned
      exact setDesc_effect slots .zero fun other different =>
        setDesc_other (fun same => different (by rw [same])) _
  | seek fid whence off =>
      obtain ⟨slot, rfl⟩ := handles fid allowed
      simp only [FatCall.run, fatVfsSeek, fdIndex_slot] at returned
      cases returned
      exact setDesc_effect slots ((slots slot).seek whence off.toInt) fun other different =>
        setDesc_other (fun same => different (by rw [same])) _
  | absTell fid =>
      obtain ⟨slot, rfl⟩ := handles fid allowed
      simp only [FatCall.run, fatVfsAbsTell, fdIndex_slot] at returned
      cases returned
      exact (OnlyReads.refl s).effect slots rfl
  | rd fid n =>
      simp only [FatCall.run] at returned
      cases read : fatVfsRd platform s fid n.toNat with
      | error stop =>
          rw [read] at returned
          cases returned
      | ok result =>
          rw [read] at returned
          cases returned
          exact (fatVfsRd_onlyReads read).effect slots rfl

end Calls

end Bwuhos
