import Bwuhos.Vfs.Files

namespace Bwuhos

open Bwuhos.Data

/-! # The mode of an open file

An open records in the descriptor whether the file may be read, and no read looks there.
-/

/-- The last open that produced a file had these flags. -/
def LastOpened (history : List VfsEvent) (file : VfsFile) (flags : UInt8) : Prop :=
  ∃ since event before, history = since ++ event :: before ∧ event.Opens file flags ∧
    ∀ later ∈ since, ∀ other, ¬later.Opens file other

/-- The last open that produced a file asked for reading, and the file has not been closed since. -/
def OpenForReading (history : List VfsEvent) (file : VfsFile) : Prop :=
  ∃ since event before flags, history = since ++ event :: before ∧ event.Opens file flags ∧
    (∀ later ∈ since, (∀ other, ¬later.Opens file other) ∧ ¬later.Closes file) ∧ flags.toNat &&& vffRead ≠ 0

/-- An open descriptor comes from an open that no close has followed. -/
def OpenRecorded {World : Type} (session : VfsSession World) : Prop :=
  ∀ slot index fd, session.vfs.desc slot index = some fd → fd.IsOpen →
    ∃ since event before flags, session.history = since ++ event :: before ∧
      event.Opens (fileHandle slot index) flags ∧
      ∀ later ∈ since, (∀ other, ¬later.Opens (fileHandle slot index) other) ∧
        ¬later.Closes (fileHandle slot index)

section

variable {World : Type} {platform : Platform World} {session before after : VfsSession World} {event : VfsEvent}
  {file : VfsFile} {n : UInt64} {flags : UInt8} {history : List VfsEvent}

theorem OpenRecorded.step (recorded : OpenRecorded before) (taken : (vfsSystem platform).step before event after) :
    OpenRecorded after := by
  obtain ⟨inRange, fuel, fault, driveId, deInfo, world, vfs, returned, rfl⟩ := taken
  intro slot index fd isDesc isOpen
  cases VfsCall.run_desc slot index inRange returned with
  | kept same notOpened notClosed =>
      obtain ⟨since, opening, earlier, flags, split, opens, undisturbed⟩ :=
        recorded slot index fd (same.symm.trans isDesc) isOpen
      refine ⟨event :: since, opening, earlier, flags, ?_, opens, fun later member => ?_⟩
      · rw [split, List.cons_append]
      · rcases List.mem_cons.mp member with rfl | old
        · exact ⟨notOpened, notClosed⟩
        · exact undisturbed later old
  | opened flags opens =>
      exact ⟨[], event, before.history, flags, rfl, opens, fun later none => absurd none List.not_mem_nil⟩
  | closed closes zero =>
      rw [isDesc] at zero
      exact absurd (Option.some.inj zero ▸ isOpen) zero_closed
  | sought seeks old was wasOpen =>
      obtain ⟨since, opening, earlier, flags, split, opens, undisturbed⟩ := recorded slot index old was wasOpen
      obtain ⟨whence, off, isSeek⟩ := seeks
      refine ⟨event :: since, opening, earlier, flags, ?_, opens, fun later member => ?_⟩
      · rw [split, List.cons_append]
      · rcases List.mem_cons.mp member with rfl | recent
        · refine ⟨fun other opened => ?_, fun closed => ?_⟩
          · obtain ⟨path, isOpening⟩ := opened.1
            cases isSeek.symm.trans isOpening
          · cases isSeek.symm.trans closed.1
        · exact undisturbed later recent

theorem vfs_reachable_recorded (reached : (vfsSystem platform).Reachable session) : OpenRecorded session := by
  apply reached.invariant OpenRecorded
  · intro session starts slot index fd isDesc isOpen
    exact absurd isOpen (starts.2 slot index fd isDesc)
  · intro before event after _ recorded taken
    exact recorded.step taken

/-- The file of a successful read is open. -/
theorem rd_recorded (reached : (vfsSystem platform).Reachable session)
    (taken : (vfsSystem platform).step session event after) (reads : event.call = .rd file n)
    (success : event.answer.ret = 0) :
    ∃ since opening before flags, session.history = since ++ opening :: before ∧ opening.Opens file flags ∧
      ∀ later ∈ since, (∀ other, ¬later.Opens file other) ∧ ¬later.Closes file := by
  obtain ⟨inRange, fuel, fault, driveId, deInfo, world, vfs, returned, _⟩ := taken
  rw [reads] at returned inRange
  obtain ⟨result, read, same⟩ := map_eq_ok returned
  have answer := (Prod.mk.inj same).1
  have zero : result.ret = 0 := by
    rw [← answer] at success
    exact success
  obtain ⟨index, fd, own, isDesc, isOpen⟩ := (vfsRd_desc file.slot ⟨0, fatMaxFileDescs_pos⟩ inRange read).2 zero
  rw [own]
  exact vfs_reachable_recorded reached file.slot index fd isDesc isOpen

theorem VfsEvent.Opens.same_flags {chosen : UInt8} (opens : event.Opens file flags) (also : event.Opens file chosen) :
    flags = chosen := by
  obtain ⟨path, isOpen⟩ := opens.1
  obtain ⟨other, isOther⟩ := also.1
  exact (VfsCall.openFile.inj (isOpen.symm.trans isOther)).2

/-- The last open of a file is only one. -/
theorem LastOpened.unique {chosen : UInt8} (last : LastOpened history file flags)
    (other : LastOpened history file chosen) : flags = chosen := by
  obtain ⟨since, opening, before, split, opens, none⟩ := last
  obtain ⟨later, reopening, rest, otherwise, reopens, noOther⟩ := other
  rcases List.append_eq_append_iff.mp (split.symm.trans otherwise) with ⟨more, longer, tail⟩ | ⟨more, longer, tail⟩
  · cases more with
    | nil => exact opens.same_flags ((List.cons.inj tail).1 ▸ reopens)
    | cons first others =>
        have inLater : opening ∈ later := by
          rw [longer, (List.cons.inj tail).1]
          simp
        exact absurd opens (noOther opening inLater flags)
  · cases more with
    | nil => exact opens.same_flags ((List.cons.inj tail).1 ▸ reopens)
    | cons first others =>
        have inSince : reopening ∈ since := by
          rw [longer, (List.cons.inj tail).1]
          simp
        exact absurd reopens (none reopening inSince chosen)

/-- Every open of a run asks for reading. -/
def OpensForReading (event : VfsEvent) : Prop :=
  ∀ path flags, event.call = .openFile path flags → flags.toNat &&& vffRead ≠ 0

theorem history_forReading
    (reached : ((vfsSystem platform).restrict fun _ event => OpensForReading event).Reachable session) :
    ∀ event ∈ session.history, OpensForReading event := by
  apply reached.invariant fun session => ∀ event ∈ session.history, OpensForReading event
  · intro session starts event member
    rw [starts.1] at member
    exact absurd member List.not_mem_nil
  · intro before event after _ all ⟨⟨_, _, _, _, _, _, _, _, same⟩, forReading⟩ other member
    rw [same] at member
    rcases List.mem_cons.mp member with rfl | old
    · exact forReading
    · exact all other old

/-- A successful read of a run is one of a file that is open for reading just if the last
open of the file asked for that, and every one is in a run whose opens all ask for it. -/
theorem vfs_rd_open_for_reading_iff (platform : Platform World) :
    (∀ session event after, (vfsSystem platform).Reachable session → (vfsSystem platform).step session event after →
      ∀ file n, event.call = .rd file n → event.answer.ret = 0 →
        (OpenForReading session.history file ↔
          ∀ flags, LastOpened session.history file flags → flags.toNat &&& vffRead ≠ 0)) ∧
    ∀ session event after,
      ((vfsSystem platform).restrict fun _ event => OpensForReading event).Reachable session →
      (vfsSystem platform).step session event after →
        ∀ file n, event.call = .rd file n → event.answer.ret = 0 → OpenForReading session.history file := by
  have general : ∀ session event after, (vfsSystem platform).Reachable session →
      (vfsSystem platform).step session event after → ∀ file n, event.call = .rd file n → event.answer.ret = 0 →
        (OpenForReading session.history file ↔
          ∀ flags, LastOpened session.history file flags → flags.toNat &&& vffRead ≠ 0) := by
    intro session event after reached taken file n reads success
    apply Iff.intro
    · intro allowed flags last
      obtain ⟨since, opening, before, chosen, split, opens, undisturbed, permitted⟩ := allowed
      have chosenLast : LastOpened session.history file chosen :=
        ⟨since, opening, before, split, opens, fun later member => (undisturbed later member).1⟩
      rw [last.unique chosenLast]
      exact permitted
    · intro permitted
      obtain ⟨since, opening, before, flags, split, opens, undisturbed⟩ := rd_recorded reached taken reads success
      exact ⟨since, opening, before, flags, split, opens, undisturbed, permitted flags
        ⟨since, opening, before, split, opens, fun later member => (undisturbed later member).1⟩⟩
  refine ⟨general, fun session event after reached taken file n reads success => ?_⟩
  apply (general session event after reached.of_restrict taken file n reads success).mpr
  intro flags last
  obtain ⟨since, opening, before, split, opens, _⟩ := last
  obtain ⟨path, isOpen⟩ := opens.1
  exact history_forReading reached opening (by rw [split]; simp) path flags isOpen

end

theorem smallVfs_closed (slot : Fin maxDrives) (index : Fin fatMaxFileDescs) (fd : FatFileDesc)
    (isDesc : smallVfs.desc slot index = some fd) : ¬fd.IsOpen := by
  by_cases first : slot = ⟨0, maxDrives_pos⟩
  · have only : smallVfs.desc slot index = some (smallDriver.fileDescs.get index) := by
      rw [first]
      exact desc_of_driver (congrArg Drive.driver (Vector.getElem_set_self maxDrives_pos))
    rw [only] at isDesc
    rw [← Option.some.inj isDesc]
    exact fresh_closed index
  · have unset : (smallVfs.drives.get slot).driver = none := by
      have other : smallVfs.drives.get slot = bootDrives.get slot :=
        @Table.get_set_other _ maxDrives bootDrives ⟨0, maxDrives_pos⟩ slot _ first
      rw [other, bootDrives, Table.get_replicate]
    rw [Vfs.desc, unset] at isDesc
    cases isDesc

/-- `1:d/b.txt`. -/
def smallPath : List UInt8 := [0x31, 0x3a, 0x64, 0x2f, 0x62, 0x2e, 0x74, 0x78, 0x74]

def openThenRead (flags : UInt8) : Except Stop (VfsAnswer × VfsAnswer) := do
  let opened ← (VfsCall.openFile smallPath flags).run .zeroed 40 .nullDeref 0 (direntInfo [] []) smallVfs
  let read ← (VfsCall.rd { drive := 1, file := 1 } 2).run .zeroed 40 .nullDeref 0 (direntInfo [] []) opened.2
  return (opened.1, read.1)

theorem openThenRead_reaches {flags : UInt8}
    (returned : (openThenRead flags).toOption.map (fun answers => (answers.1, answers.2.ret)) =
      some (⟨0, some { drive := 1, file := 1 }, []⟩, 0)) :
    ∃ (session after : VfsSession Unit) (answer : VfsAnswer),
      session.history = [⟨.openFile smallPath flags, ⟨0, some { drive := 1, file := 1 }, []⟩⟩] ∧
        (vfsSystem .zeroed).Reachable session ∧
        (vfsSystem .zeroed).step session ⟨.rd { drive := 1, file := 1 } 2, answer⟩ after ∧ answer.ret = 0 := by
  obtain ⟨answers, made, values⟩ := ok_of_map_toOption returned
  obtain ⟨openAnswer, readRet⟩ := Prod.mk.inj values
  obtain ⟨opened, opening, rest⟩ := bind_eq_ok made
  obtain ⟨read, reading, finished⟩ := bind_eq_ok rest
  obtain rfl := Except.ok.inj finished
  have characters : VfsCall.InRange (.openFile smallPath flags) := by
    intro ch member zero
    rw [zero] at member
    exact absurd member (by decide)
  have small : VfsCall.InRange (.rd { drive := 1, file := 1 } 2) := Nat.one_lt_two_pow (by decide)
  have start : (vfsSystem .zeroed).Reachable { vfs := smallVfs, history := [] } := .initial ⟨rfl, smallVfs_closed⟩
  have first := @vfsSystem_step Unit .zeroed { vfs := smallVfs, history := [] }
    ⟨.openFile smallPath flags, opened.1⟩ _ _ _ _ _ characters opening
  have second := @vfsSystem_step Unit .zeroed
    { vfs := opened.2, history := [⟨.openFile smallPath flags, opened.1⟩] }
    ⟨.rd { drive := 1, file := 1 } 2, read.1⟩ _ _ _ _ _ small reading
  refine ⟨_, _, read.1, ?_, .step start first, second, readRet⟩
  rw [← openAnswer]

theorem openThenRead_small :
    (openThenRead 1).toOption.map (fun answers => (answers.1, answers.2.ret)) =
      some (⟨0, some { drive := 1, file := 1 }, []⟩, 0) ∧
    (openThenRead 2).toOption.map (fun answers => (answers.1, answers.2.ret)) =
      some (⟨0, some { drive := 1, file := 1 }, []⟩, 0) := by
  decide +kernel

theorem lastOpened_single {path : List UInt8} {flags : UInt8} {file : VfsFile} :
    LastOpened [⟨.openFile path flags, ⟨0, some file, []⟩⟩] file flags :=
  ⟨[], _, [], rfl, ⟨⟨path, rfl⟩, rfl, rfl⟩, fun _ none => absurd none List.not_mem_nil⟩

theorem vfs_rd_open_for_reading_iff_small :
    ∃ (session after : VfsSession Unit) (answer : VfsAnswer), (vfsSystem .zeroed).Reachable session ∧
      (vfsSystem .zeroed).step session ⟨.rd { drive := 1, file := 1 } 2, answer⟩ after ∧ answer.ret = 0 ∧
        OpenForReading session.history { drive := 1, file := 1 } := by
  obtain ⟨session, after, answer, history, reached, taken, success⟩ := openThenRead_reaches openThenRead_small.1
  refine ⟨session, after, answer, reached, taken, success, ?_⟩
  apply ((vfs_rd_open_for_reading_iff .zeroed).1 session _ after reached taken _ _ rfl success).mpr
  intro flags last
  rw [history] at last
  rw [last.unique lastOpened_single]
  decide

/-- A file that was opened for writing only is read. -/
theorem vfs_rd_write_only :
    ∃ (session after : VfsSession Unit) (answer : VfsAnswer), (vfsSystem .zeroed).Reachable session ∧
      (vfsSystem .zeroed).step session ⟨.rd { drive := 1, file := 1 } 2, answer⟩ after ∧ answer.ret = 0 ∧
        ¬OpenForReading session.history { drive := 1, file := 1 } := by
  obtain ⟨session, after, answer, history, reached, taken, success⟩ := openThenRead_reaches openThenRead_small.2
  refine ⟨session, after, answer, reached, taken, success, fun allowed => ?_⟩
  obtain ⟨since, opening, before, flags, split, opens, undisturbed, permitted⟩ := allowed
  have last : LastOpened session.history { drive := 1, file := 1 } flags :=
    ⟨since, opening, before, split, opens, fun later member => (undisturbed later member).1⟩
  rw [history] at last
  rw [last.unique lastOpened_single] at permitted
  exact permitted rfl

end Bwuhos
