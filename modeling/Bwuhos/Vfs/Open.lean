import Bwuhos.Fat.Paths
import Bwuhos.Vfs
import Mathlib.Data.List.TakeWhile
import Mathlib.Data.Nat.Digits.Defs

namespace Bwuhos

open Bwuhos.Data

/-! # Opening files by path

`vfs_open`, which reads the number of a drive from the start of a path.
-/

section

variable {World : Type}

/-- The first loop of `vfs_open`: the number of characters before a colon or the terminator. -/
def driveIdChCnt (fault : Stop) (path : List UInt8) : Except Stop Nat :=
  loop .outOfFuel (fun cnt => do
    let ch ← charAt fault path cnt
    if ch = 0 ∨ ch = 0x3a then return .inr cnt
    return .inl (cnt + 1)) (path.length + 1) 0

/-- The loop that multiplies `n` by the magnitude of its digit. -/
def magnitude (n : Int) : Nat → Int
  | 0 => n
  | j + 1 => magnitude (n * 10) j

/-- The digits from `path[i]` on, of which there are `left`, added to `drive_id`.  There is
no result where a character is not a digit. -/
def readDriveId (fault : Stop) (path : List UInt8) : (left i : Nat) → (driveId : Int) → Except Stop (Option Int)
  | 0, _, driveId => .ok (some driveId)
  | left + 1, i, driveId => do
      let ch ← charAt fault path i
      if ch < 0x30 ∨ 0x39 < ch then return none
      readDriveId fault path left (i + 1) (toS32 (driveId + magnitude (ch.toNat - 0x30) left))

/-- The checks that `vfs_open` makes of a drive number. -/
def driveAt (drives : Vector (Drive World) maxDrives) (driveId : Int) : Option (Fin maxDrives) :=
  if valid : 1 ≤ driveId ∧ driveId ≤ maxDrives then
    let slot : Fin maxDrives := ⟨driveId.toNat - 1, by omega⟩
    if (drives.get slot).IsMounted then some slot else none
  else none

/-- What `vfs_open` does up to the call of the driver: the drive, and where the string
begins that its driver gets.  `driveId` is what that local holds before anything is
stored in it. -/
def vfsOpenDrive (fault : Stop) (driveId : Int) (drives : Vector (Drive World) maxDrives) (path : List UInt8) :
    Except Stop (Option (Fin maxDrives × Nat)) := do
  let cnt ← driveIdChCnt fault path
  if cnt = 0 ∨ cnt > 3 then return none
  let parsed ← readDriveId fault path cnt 0 driveId
  match parsed with
  | none => return none
  | some driveId => return (driveAt drives driveId).map fun slot => (slot, cnt + 1)

/-- The result, `*out` where it is written, and the table afterwards. -/
def vfsOpen (platform : Platform World) (fuel : Nat) (fault : Stop) (driveId : Int) (deInfo : FatDirentInfo)
    (vfs : Vfs World) (path : List UInt8) (flags : Nat) : Except Stop (Nat × Option VfsFile × Vfs World) := do
  let drive ← vfsOpenDrive fault driveId vfs.drives path
  match drive with
  | none => return (1, none, vfs)
  | some (slot, start) =>
      match (vfs.drives.get slot).driver with
      | none => .error .nullDeref
      | some driver => do
          let (fid, s) ← fatVfsOpenAt platform fuel fault deInfo { driver, world := vfs.world } path start flags
          let after := { vfs.setDriver slot s.driver with world := s.world }
          if fid = 0 then return (1, none, after)
          return (0, some { drive := .ofNat (slot + 1), file := fid }, after)

end

def IsDigit (ch : UInt8) : Prop := 0x30 ≤ ch ∧ ch ≤ 0x39

instance : DecidablePred IsDigit := fun _ => inferInstanceAs (Decidable (_ ∧ _))

/-- The value of a decimal numeral. -/
def decimalValue (digits : List UInt8) : Nat := Nat.ofDigits 10 (digits.reverse.map fun ch => ch.toNat - 0x30)

/-- The characters of a path before its first colon. -/
def drivePart (path : List UInt8) : List UInt8 := path.takeWhile (· ≠ 0x3a)

section Parse

variable {World : Type} {drives : Vector (Drive World) maxDrives} {fault : Stop} {path digits tail : List UInt8}
  {fuel i : Nat}

theorem magnitude_eq (n : Int) (j : Nat) : magnitude n j = n * 10 ^ j := by
  induction j generalizing n with
  | zero => exact (Int.mul_one n).symm
  | succ j ih => rw [magnitude, ih, Int.pow_succ', Int.mul_assoc]

theorem decimalValue_cons (ch : UInt8) (rest : List UInt8) :
    decimalValue (ch :: rest) = (ch.toNat - 0x30) * 10 ^ rest.length + decimalValue rest := by
  have width : (rest.reverse.map fun ch => ch.toNat - 0x30).length = rest.length := by simp
  rw [decimalValue, List.reverse_cons, List.map_append, Nat.ofDigits_append, width, decimalValue,
    List.map_singleton, Nat.ofDigits_singleton, Nat.add_comm, Nat.mul_comm]

theorem decimalValue_lt (decimal : ∀ ch ∈ digits, IsDigit ch) : decimalValue digits < 10 ^ digits.length := by
  have bound : ∀ digit ∈ digits.reverse.map fun ch => ch.toNat - 0x30, digit < 10 := by
    intro digit mapped
    obtain ⟨ch, member, rfl⟩ := List.mem_map.mp mapped
    have upper : ch.toNat ≤ 0x39 := (decimal ch (List.mem_reverse.mp member)).2
    omega
  have below := Nat.ofDigits_lt_base_pow_length (by decide) bound
  rwa [List.length_map, List.length_reverse] at below

theorem charAt_drop {ch : UInt8} (dropped : path.drop i = ch :: tail) : charAt fault path i = .ok ch := by
  have inside : i < path.length := by
    by_contra behind
    rw [List.drop_eq_nil_of_le (Nat.le_of_not_lt behind)] at dropped
    cases dropped
  rw [List.drop_eq_getElem_cons inside] at dropped
  rw [charAt, if_pos inside, List.getD_eq_getElem _ _ inside, (List.cons.inj dropped).1]

theorem readDriveId_eq (fault : Stop) (base : Int) (dropped : path.drop i = digits ++ tail) :
    readDriveId fault path digits.length i (toS32 base) =
      .ok (if digits.all (IsDigit ·) then some (toS32 (base + decimalValue digits)) else none) := by
  induction digits generalizing i base with
  | nil =>
      rw [List.all_nil, if_pos rfl]
      exact congrArg (fun value => Except.ok (some (toS32 value))) (Int.add_zero base).symm
  | cons ch rest ih =>
      have next : path.drop (i + 1) = rest ++ tail := by
        rw [← List.drop_drop, dropped]
        rfl
      simp only [List.length_cons, readDriveId, charAt_drop dropped, bind, Except.bind]
      by_cases digit : IsDigit ch
      · have inside : ¬(ch < 0x30 ∨ 0x39 < ch) := by
          simp only [not_or, UInt8.not_lt]
          exact digit
        have lower : 0x30 ≤ ch.toNat := digit.1
        have value : base + magnitude (ch.toNat - 0x30) rest.length + decimalValue rest =
            base + decimalValue (ch :: rest) := by
          rw [magnitude_eq, decimalValue_cons]
          push_cast [lower]
          omega
        rw [if_neg inside, toS32_add, ih _ next, value]
        simp only [List.all_cons, digit, decide_true, Bool.true_and]
      · have outside : ch < 0x30 ∨ 0x39 < ch := by
          by_contra inside
          simp only [not_or, UInt8.not_lt] at inside
          exact digit inside
        simp only [outside, if_true, List.all_cons, digit, decide_false, Bool.false_and, Bool.false_eq_true, if_false]
        rfl

theorem driveIdChCnt_eq (characters : ∀ ch ∈ path, ch ≠ 0) :
    driveIdChCnt fault path = .ok (drivePart path).length := by
  have scans : ∀ fuel i, i ≤ path.length → path.length - i < fuel →
      loop .outOfFuel (fun cnt => do
        let ch ← charAt fault path cnt
        if ch = 0 ∨ ch = 0x3a then return .inr cnt
        return .inl (cnt + 1)) fuel i = .ok (i + (drivePart (path.drop i)).length) := by
    intro fuel
    induction fuel with
    | zero => exact fun i _ enough => absurd enough (Nat.not_lt_zero _)
    | succ fuel ih =>
        intro i inside enough
        rcases Nat.lt_or_eq_of_le inside with before | rfl
        · obtain ⟨ch, nonzero, dropped, read⟩ : ∃ ch, ch ≠ 0 ∧ path.drop i = ch :: path.drop (i + 1) ∧
              charAt fault path i = .ok ch := charAt_inside characters before
          by_cases colon : ch = 0x3a
          · have empty : drivePart (path.drop i) = [] := by simp [dropped, drivePart, colon]
            rw [empty]
            apply loop_done
            simp only [read, bind, Except.bind]
            rw [if_pos (Or.inr colon)]
            rfl
          · have longer : drivePart (path.drop i) = ch :: drivePart (path.drop (i + 1)) := by
              simp [dropped, drivePart, colon]
            have rest := ih (i + 1) before (by omega)
            rw [longer, List.length_cons, ← Nat.add_assoc, Nat.add_right_comm, ← rest]
            apply loop_next
            simp only [read, bind, Except.bind]
            rw [if_neg (not_or.mpr ⟨nonzero, colon⟩)]
            rfl
        · rw [List.drop_length]
          apply loop_done
          simp only [charAt_end, bind, Except.bind]
          rfl
  have whole := scans (path.length + 1) 0 (Nat.zero_le _) (by omega)
  rwa [Nat.zero_add, List.drop_zero] at whole

theorem driveAt_eq_some {driveId : Int} {slot : Fin maxDrives} :
    driveAt drives driveId = some slot ↔ driveId = slot + 1 ∧ (drives.get slot).IsMounted := by
  have small := slot.isLt
  unfold driveAt
  split
  · next valid =>
      simp only [Option.ite_none_right_eq_some, Option.some.injEq]
      constructor
      · intro found
        obtain ⟨mounted, rfl⟩ := found
        exact ⟨by simp only; omega, mounted⟩
      · intro here
        have same : (⟨driveId.toNat - 1, by omega⟩ : Fin maxDrives) = slot := Fin.ext (by simp only; omega)
        exact ⟨same ▸ here.2, same⟩
  · next invalid =>
      refine iff_of_false (fun impossible => by cases impossible) fun here => invalid ?_
      omega

/-- A drive number that `vfs_open` accepts. -/
def ValidDrive (drives : Vector (Drive World) maxDrives) (number : Int) : Prop :=
  ∃ slot : Fin maxDrives, number = slot + 1 ∧ (drives.get slot).IsMounted

theorem driveAt_eq_none {driveId : Int} : driveAt drives driveId = none ↔ ¬ValidDrive drives driveId := by
  rw [Option.eq_none_iff_forall_ne_some]
  simp only [ne_eq, driveAt_eq_some, ValidDrive, not_exists]

/-- The part of a path before the first colon is the number of a drive, of up to three digits. -/
structure DriveNumeral (digits : List UInt8) : Prop where
  nonempty : digits ≠ []
  short : digits.length ≤ 3
  decimal : ∀ ch ∈ digits, IsDigit ch

/-- The number of a drive is added to what `drive_id` holds. -/
theorem vfsOpenDrive_eq (characters : ∀ ch ∈ path, ch ≠ 0) {driveId : Int} (lower : -2 ^ 31 ≤ driveId)
    (upper : driveId < 2 ^ 31) (numeral : DriveNumeral (drivePart path)) :
    vfsOpenDrive fault driveId drives path =
      .ok ((driveAt drives (toS32 (driveId + decimalValue (drivePart path)))).map fun slot =>
        (slot, (drivePart path).length + 1)) := by
  have split : path.drop 0 = drivePart path ++ path.dropWhile (· ≠ 0x3a) := List.takeWhile_append_dropWhile.symm
  have some_ : ¬((drivePart path).length = 0 ∨ (drivePart path).length > 3) := by
    have positive := List.length_pos_iff.mpr numeral.nonempty
    have short := numeral.short
    omega
  have decimal : (drivePart path).all (IsDigit ·) := List.all_eq_true.mpr fun ch member =>
    decide_eq_true (numeral.decimal ch member)
  have parsed := readDriveId_eq fault driveId split
  rw [toS32_of_small lower upper, if_pos decimal] at parsed
  unfold vfsOpenDrive
  rw [driveIdChCnt_eq characters]
  simp only [bind, Except.bind]
  rw [if_neg some_, parsed]
  rfl

theorem vfsOpenDrive_refused (characters : ∀ ch ∈ path, ch ≠ 0) {driveId : Int} (lower : -2 ^ 31 ≤ driveId)
    (upper : driveId < 2 ^ 31) (other : ¬DriveNumeral (drivePart path)) :
    vfsOpenDrive fault driveId drives path = .ok none := by
  have split : path.drop 0 = drivePart path ++ path.dropWhile (· ≠ 0x3a) := List.takeWhile_append_dropWhile.symm
  unfold vfsOpenDrive
  rw [driveIdChCnt_eq characters]
  simp only [bind, Except.bind]
  by_cases wide : (drivePart path).length = 0 ∨ (drivePart path).length > 3
  · rw [if_pos wide]
    rfl
  · obtain ⟨positive, short⟩ := not_or.mp wide
    have letters : ¬(drivePart path).all (IsDigit ·) := fun decimal =>
      other ⟨fun empty => positive (by rw [empty]; rfl), Nat.le_of_not_lt short, fun ch member =>
        of_decide_eq_true (List.all_eq_true.mp decimal ch member)⟩
    have parsed := readDriveId_eq fault driveId split
    rw [toS32_of_small lower upper, if_neg letters] at parsed
    rw [if_neg wide, parsed]
    rfl

end Parse

/-- The path `digits:rest` is opened on the drive whose number the digits are. -/
structure UsesDriveNumber {World : Type} (platform : Platform World) (fuel : Nat) (fault : Stop) (driveId : Int)
    (deInfo : FatDirentInfo) (vfs : Vfs World) (digits rest : List UInt8) (flags : Nat) : Prop where
  rejects : ¬ValidDrive vfs.drives (decimalValue digits) →
    vfsOpenDrive fault driveId vfs.drives (digits ++ 0x3a :: rest) = .ok none ∧
      vfsOpen platform fuel fault driveId deInfo vfs (digits ++ 0x3a :: rest) flags = .ok (1, none, vfs)
  calls : ∀ slot : Fin maxDrives, (decimalValue digits : Int) = slot + 1 → (vfs.drives.get slot).IsMounted →
    ∃ start, vfsOpenDrive fault driveId vfs.drives (digits ++ 0x3a :: rest) = .ok (some (slot, start)) ∧
      (digits ++ 0x3a :: rest).drop start = rest
  stores : ∀ (slot : Fin maxDrives) (driver : FatDriver World) (fid : Nat) (s : FatState World),
    (decimalValue digits : Int) = slot + 1 → (vfs.drives.get slot).IsMounted →
      (vfs.drives.get slot).driver = some driver →
        fatVfsOpen platform fuel deInfo { driver, world := vfs.world } rest flags = .ok (fid, s) → fid ≠ 0 →
          ∃ after, vfsOpen platform fuel fault driveId deInfo vfs (digits ++ 0x3a :: rest) flags =
            .ok (0, some { drive := .ofNat (decimalValue digits), file := fid }, after)

/-- A call does not depend on what a read behind the terminator does, so it makes none. -/
def ReadsNothingBeyond {Result : Type} (call : Stop → Except Stop Result) : Prop :=
  ∀ fault other, call fault = call other

/-- A path is read up to its terminator, and is rejected without a colon. -/
structure PathRespected {World : Type} (platform : Platform World) (fuel : Nat) (driveId : Int)
    (deInfo : FatDirentInfo) (vfs : Vfs World) (path : List UInt8) (flags : Nat) : Prop where
  inside : ReadsNothingBeyond fun fault => vfsOpen platform fuel fault driveId deInfo vfs path flags
  rejected : 0x3a ∉ path → ∀ fault, ∃ ret out after,
    vfsOpen platform fuel fault driveId deInfo vfs path flags = .ok (ret, out, after) ∧ ret ≠ 0

section Opening

variable {World : Type} {platform : Platform World} {fuel flags : Nat} {fault : Stop} {driveId : Int}
  {deInfo : FatDirentInfo} {vfs : Vfs World} {path digits rest : List UInt8} {slot : Fin maxDrives} {start : Nat}
  {driver : FatDriver World}

theorem drivePart_numeral (decimal : ∀ ch ∈ digits, IsDigit ch) : drivePart (digits ++ 0x3a :: rest) = digits := by
  have different : ∀ ch ∈ digits, decide (ch ≠ 0x3a) = true := fun ch member => by
    have upper := (decimal ch member).2
    refine decide_eq_true fun colon => ?_
    rw [colon] at upper
    exact absurd upper (by decide)
  rw [drivePart, List.takeWhile_append_of_pos different, List.takeWhile_cons_of_neg (by decide), List.append_nil]

theorem drivePart_plain (plain : 0x3a ∉ path) : drivePart path = path :=
  List.takeWhile_eq_self_iff.mpr fun _ member => decide_eq_true fun colon => plain (colon ▸ member)

theorem drivePart_colon (colon : 0x3a ∈ path) : (drivePart path).length < path.length := by
  refine Nat.lt_of_le_of_ne (List.takeWhile_sublist _).length_le fun full => ?_
  have whole : drivePart path = path := (List.takeWhile_prefix _).eq_of_length full
  have plain := List.takeWhile_eq_self_iff.mp whole 0x3a colon
  exact absurd plain (by decide)

theorem vfsOpen_rejected (parsed : vfsOpenDrive fault driveId vfs.drives path = .ok none) :
    vfsOpen platform fuel fault driveId deInfo vfs path flags = .ok (1, none, vfs) := by
  rw [vfsOpen, parsed]
  rfl

theorem vfsOpen_unset (parsed : vfsOpenDrive fault driveId vfs.drives path = .ok (some (slot, start)))
    (unset : (vfs.drives.get slot).driver = none) :
    vfsOpen platform fuel fault driveId deInfo vfs path flags = .error .nullDeref := by
  rw [vfsOpen, parsed]
  simp only [bind, Except.bind, unset]

/-- What `vfs_open` returns behind the call of the driver. -/
def openedFile (vfs : Vfs World) (slot : Fin maxDrives) (opened : Nat × FatState World) :
    Nat × Option VfsFile × Vfs World :=
  if opened.1 = 0 then (1, none, { vfs.setDriver slot opened.2.driver with world := opened.2.world })
  else (0, some { drive := .ofNat (slot + 1), file := opened.1 },
    { vfs.setDriver slot opened.2.driver with world := opened.2.world })

theorem vfsOpen_calls (parsed : vfsOpenDrive fault driveId vfs.drives path = .ok (some (slot, start)))
    (set : (vfs.drives.get slot).driver = some driver) :
    vfsOpen platform fuel fault driveId deInfo vfs path flags =
      (fatVfsOpenAt platform fuel fault deInfo { driver, world := vfs.world } path start flags).map
        (openedFile vfs slot) := by
  rw [vfsOpen, parsed]
  simp only [bind, Except.bind, set]
  cases fatVfsOpenAt platform fuel fault deInfo { driver, world := vfs.world } path start flags with
  | error stop => rfl
  | ok opened =>
      simp only [Except.map, openedFile]
      split <;> rfl

theorem numeralPath_characters (numeral : DriveNumeral digits) (characters : ∀ ch ∈ rest, ch ≠ 0) :
    ∀ ch ∈ digits ++ 0x3a :: rest, ch ≠ 0 := by
  intro ch member zero
  rcases List.mem_append.mp member with digit | later
  · have above := (numeral.decimal ch digit).1
    rw [zero] at above
    exact absurd above (by decide)
  · rcases List.mem_cons.mp later with colon | inside
    · exact absurd (colon.symm.trans zero) (by decide)
    · exact characters ch inside zero

theorem numeralPath_drop : (digits ++ 0x3a :: rest).drop (digits.length + 1) = rest := by
  rw [← List.drop_drop, List.drop_left]
  rfl

theorem vfsOpenDrive_numeral {drives : Vector (Drive World) maxDrives} (lower : -2 ^ 31 ≤ driveId)
    (upper : driveId < 2 ^ 31) (numeral : DriveNumeral digits) (characters : ∀ ch ∈ rest, ch ≠ 0) :
    vfsOpenDrive fault driveId drives (digits ++ 0x3a :: rest) =
      .ok ((driveAt drives (toS32 (driveId + decimalValue digits))).map fun slot => (slot, digits.length + 1)) := by
  have part : drivePart (digits ++ 0x3a :: rest) = digits := drivePart_numeral numeral.decimal
  rw [vfsOpenDrive_eq (numeralPath_characters numeral characters) lower upper (part.symm ▸ numeral), part]

theorem usesDriveNumber_of_zero (numeral : DriveNumeral digits) (characters : ∀ ch ∈ rest, ch ≠ 0) :
    UsesDriveNumber platform fuel fault 0 deInfo vfs digits rest flags := by
  have small : decimalValue digits < 10 ^ 3 := (decimalValue_lt numeral.decimal).trans_le
    (Nat.pow_le_pow_right (by decide) numeral.short)
  have parsed : vfsOpenDrive fault 0 vfs.drives (digits ++ 0x3a :: rest) =
      .ok ((driveAt vfs.drives (decimalValue digits)).map fun slot => (slot, digits.length + 1)) := by
    rw [vfsOpenDrive_numeral (by decide) (by decide) numeral characters, Int.zero_add,
      toS32_of_small (by omega) (by omega)]
  refine ⟨fun invalid => ?_, fun slot number mounted => ?_,
    fun slot driver fid s number mounted set opened success => ?_⟩
  · rw [driveAt_eq_none.mpr invalid] at parsed
    exact ⟨parsed, vfsOpen_rejected parsed⟩
  · rw [driveAt_eq_some.mpr ⟨number, mounted⟩] at parsed
    exact ⟨digits.length + 1, parsed, numeralPath_drop⟩
  · rw [driveAt_eq_some.mpr ⟨number, mounted⟩] at parsed
    have same : (slot : Nat) + 1 = decimalValue digits := by omega
    refine ⟨{ vfs.setDriver slot s.driver with world := s.world }, ?_⟩
    rw [vfsOpen_calls parsed set, fatVfsOpenAt_eq (numeralPath_characters numeral characters) (by simp),
      numeralPath_drop, opened, Except.map, openedFile, if_neg success, same]

/-- Whatever `drive_id` holds, a path is opened on the drive whose number it begins with
exactly when that local holds 0, or neither this number nor its sum with the local is
that of a mounted drive. -/
theorem vfs_open_drive_iff (platform : Platform World) (fuel : Nat) (fault : Stop) (driveId : Int)
    (lower : -2 ^ 31 ≤ driveId) (upper : driveId < 2 ^ 31) (deInfo : FatDirentInfo) (vfs : Vfs World)
    (digits rest : List UInt8) (numeral : DriveNumeral digits) (characters : ∀ ch ∈ rest, ch ≠ 0) (flags : Nat) :
    UsesDriveNumber platform fuel fault driveId deInfo vfs digits rest flags ↔
      driveId = 0 ∨ ¬ValidDrive vfs.drives (decimalValue digits) ∧
        ¬ValidDrive vfs.drives (toS32 (driveId + decimalValue digits)) := by
  have parsed : vfsOpenDrive fault driveId vfs.drives (digits ++ 0x3a :: rest) =
      .ok ((driveAt vfs.drives (toS32 (driveId + decimalValue digits))).map fun slot => (slot, digits.length + 1)) :=
    vfsOpenDrive_numeral lower upper numeral characters
  constructor
  · intro uses
    by_contra wrong
    obtain ⟨garbage, valid⟩ := not_or.mp wrong
    by_cases own : ValidDrive vfs.drives (decimalValue digits)
    · obtain ⟨slot, number, mounted⟩ := own
      obtain ⟨start, called, _⟩ := uses.calls slot number mounted
      obtain ⟨other, found, same⟩ := Option.map_eq_some_iff.mp (Except.ok.inj (parsed.symm.trans called))
      obtain rfl := (Prod.mk.inj same).1
      exact toS32_add_ne lower upper garbage ((driveAt_eq_some.mp found).1.trans number.symm)
    · have taken : ValidDrive vfs.drives (toS32 (driveId + decimalValue digits)) := by
        by_contra free
        exact valid ⟨own, free⟩
      have nothing := Except.ok.inj (parsed.symm.trans (uses.rejects own).1)
      exact driveAt_eq_none.mp (Option.map_eq_none_iff.mp nothing) taken
  · intro condition
    cases condition with
    | inl zero =>
        rw [zero]
        exact usesDriveNumber_of_zero numeral characters
    | inr invalid =>
        rw [driveAt_eq_none.mpr invalid.2] at parsed
        refine ⟨fun _ => ⟨parsed, vfsOpen_rejected parsed⟩, fun slot number mounted => ?_,
          fun slot _ _ _ number mounted => ?_⟩
        · exact absurd ⟨slot, number, mounted⟩ invalid.1
        · exact absurd ⟨slot, number, mounted⟩ invalid.1

theorem pathRespected_of_rejected (parsed : ∀ fault, vfsOpenDrive fault driveId vfs.drives path = .ok none) :
    PathRespected platform fuel driveId deInfo vfs path flags := by
  have same : ∀ fault, vfsOpen platform fuel fault driveId deInfo vfs path flags = .ok (1, none, vfs) :=
    fun fault => vfsOpen_rejected (parsed fault)
  exact ⟨fun fault other => (same fault).trans (same other).symm,
    fun _ fault => ⟨1, none, vfs, same fault, Nat.one_ne_zero⟩⟩

/-- Behind a colon, the driver gets a string that begins inside the path. -/
theorem pathRespected_of_colon (characters : ∀ ch ∈ path, ch ≠ 0) (lower : -2 ^ 31 ≤ driveId)
    (upper : driveId < 2 ^ 31) (colon : 0x3a ∈ path) :
    PathRespected platform fuel driveId deInfo vfs path flags := by
  by_cases numeral : DriveNumeral (drivePart path)
  · have parsed : ∀ fault, vfsOpenDrive fault driveId vfs.drives path =
        .ok ((driveAt vfs.drives (toS32 (driveId + decimalValue (drivePart path)))).map fun slot =>
          (slot, (drivePart path).length + 1)) := fun fault => vfsOpenDrive_eq characters lower upper numeral
    cases found : driveAt vfs.drives (toS32 (driveId + decimalValue (drivePart path))) with
    | none =>
        rw [found] at parsed
        exact pathRespected_of_rejected parsed
    | some slot =>
        rw [found] at parsed
        refine ⟨fun fault other => ?_, fun plain => absurd colon plain⟩
        cases set : (vfs.drives.get slot).driver with
        | none => exact (vfsOpen_unset (parsed fault) set).trans (vfsOpen_unset (parsed other) set).symm
        | some driver =>
            have inside := Nat.succ_le_of_lt (drivePart_colon colon)
            have calls : ∀ fault, vfsOpen platform fuel fault driveId deInfo vfs path flags =
                (fatVfsOpen platform fuel deInfo { driver, world := vfs.world }
                  (path.drop ((drivePart path).length + 1)) flags).map (openedFile vfs slot) := fun fault => by
              rw [vfsOpen_calls (parsed fault) set, fatVfsOpenAt_eq characters inside]
            exact (calls fault).trans (calls other).symm
  · exact pathRespected_of_rejected fun fault => vfsOpenDrive_refused characters lower upper numeral

/-- A path is read up to its terminator, and rejected without a colon, exactly when it has
a colon, or is not the number of a drive, or the number that it adds up to is not that of
a mounted drive. -/
theorem vfs_open_path_iff (platform : Platform World) (fuel : Nat) (driveId : Int)
    (lower : -2 ^ 31 ≤ driveId) (upper : driveId < 2 ^ 31) (deInfo : FatDirentInfo) (vfs : Vfs World)
    (path : List UInt8) (characters : ∀ ch ∈ path, ch ≠ 0) (flags : Nat) :
    PathRespected platform fuel driveId deInfo vfs path flags ↔
      0x3a ∈ path ∨ ¬DriveNumeral path ∨ ¬ValidDrive vfs.drives (toS32 (driveId + decimalValue path)) := by
  by_cases colon : 0x3a ∈ path
  · exact iff_of_true (pathRespected_of_colon characters lower upper colon) (Or.inl colon)
  · have part := drivePart_plain colon
    rw [or_iff_right colon]
    by_cases numeral : DriveNumeral path
    · have parsed : ∀ fault, vfsOpenDrive fault driveId vfs.drives path =
          .ok ((driveAt vfs.drives (toS32 (driveId + decimalValue path))).map fun slot => (slot, path.length + 1)) :=
        fun fault => (vfsOpenDrive_eq characters lower upper (part.symm ▸ numeral)).trans (by rw [part])
      rw [or_iff_right (not_not.mpr numeral)]
      cases found : driveAt vfs.drives (toS32 (driveId + decimalValue path)) with
      | none =>
          rw [found] at parsed
          exact iff_of_true (pathRespected_of_rejected parsed) (driveAt_eq_none.mp found)
      | some slot =>
          -- without a colon, the driver gets what lies behind the terminator
          rw [found] at parsed
          have valid : ValidDrive vfs.drives (toS32 (driveId + decimalValue path)) := ⟨slot, driveAt_eq_some.mp found⟩
          refine iff_of_false (fun respected => ?_) (not_not.mpr valid)
          obtain ⟨ret, out, after, returned, _⟩ := respected.rejected colon .outOfBounds
          cases set : (vfs.drives.get slot).driver with
          | none => cases (vfsOpen_unset (parsed _) set).symm.trans returned
          | some driver =>
              rw [vfsOpen_calls (parsed _) set, fatVfsOpenAt_beyond (Nat.lt_succ_self _)] at returned
              cases returned
    · refine iff_of_true (pathRespected_of_rejected fun fault => ?_) (Or.inl numeral)
      exact vfsOpenDrive_refused characters lower upper (part.symm ▸ numeral)

end Opening

def oneDrive : Drive Unit := { driver := some smallDriver, blkdev := 0x1000, fs := vfFat16, flags := dfMounted }

def firstDrive : Fin maxDrives := ⟨0, maxDrives_pos⟩

def oneDriveVfs : Vfs Unit := { drives := bootDrives.set firstDrive oneDrive firstDrive.isLt, world := () }

theorem oneDriveVfs_first : oneDriveVfs.drives.get firstDrive = oneDrive :=
  Table.get_set_self

theorem oneDriveVfs_mounted : (oneDriveVfs.drives.get firstDrive).IsMounted := by
  rw [oneDriveVfs_first]
  decide

theorem vfs_open_drive_iff_one :
    UsesDriveNumber .zeroed 65569 .outOfBounds 0 (direntInfo [] []) oneDriveVfs [0x31] [0x61] 1 :=
  (vfs_open_drive_iff .zeroed 65569 .outOfBounds 0 (by decide) (by decide) (direntInfo [] []) oneDriveVfs [0x31] [0x61]
    ⟨by simp, by decide, by simp [IsDigit]⟩ (by simp) 1).mpr (Or.inl rfl)

theorem vfs_open_drive_garbage :
    vfsOpenDrive .outOfBounds 1 oneDriveVfs.drives [0x31, 0x3a, 0x61] = .ok none ∧
      ¬UsesDriveNumber .zeroed 65569 .outOfBounds 1 (direntInfo [] []) oneDriveVfs [0x31] [0x61] 1 := by
  have refused : vfsOpenDrive .outOfBounds 1 oneDriveVfs.drives [0x31, 0x3a, 0x61] = .ok none := by decide +kernel
  refine ⟨refused, fun uses => ?_⟩
  obtain ⟨start, called, _⟩ := uses.calls firstDrive (by decide) oneDriveVfs_mounted
  cases refused.symm.trans called

theorem vfs_open_path_iff_colon :
    PathRespected .zeroed 65569 0 (direntInfo [] []) oneDriveVfs [0x31, 0x3a, 0x61] 1 :=
  (vfs_open_path_iff .zeroed 65569 0 (by decide) (by decide) (direntInfo [] []) oneDriveVfs [0x31, 0x3a, 0x61]
    (by simp) 1).mpr (Or.inl (by simp))

theorem vfs_open_path_beyond :
    (∀ fault, vfsOpen .zeroed 65569 fault 0 (direntInfo [] []) oneDriveVfs [0x31] 1 = .error fault) ∧
      ¬PathRespected .zeroed 65569 0 (direntInfo [] []) oneDriveVfs [0x31] 1 := by
  have parsed : ∀ fault, vfsOpenDrive fault 0 oneDriveVfs.drives [0x31] = .ok (some (firstDrive, 2)) := by
    intro fault
    cases fault <;> decide +kernel
  have present : (oneDriveVfs.drives.get firstDrive).driver = some smallDriver := by
    rw [oneDriveVfs_first]
    rfl
  have stopped : ∀ fault, vfsOpen .zeroed 65569 fault 0 (direntInfo [] []) oneDriveVfs [0x31] 1 = .error fault := by
    intro fault
    rw [vfsOpen_calls (parsed fault) present, fatVfsOpenAt_beyond (by decide)]
    rfl
  refine ⟨stopped, fun respected => ?_⟩
  obtain ⟨_, _, _, returned, _⟩ := respected.rejected (by decide) .outOfBounds
  cases (stopped .outOfBounds).symm.trans returned

end Bwuhos
