import Bwuhos.Fat.Runs

namespace Bwuhos

open Bwuhos.Data

/-! # Times and dates of directory entries

A FAT packs the largest unit of a time or date into the highest bits.  `fat.c` takes it
from the lowest ones.
-/

/-- A time of day, to two seconds. -/
structure DosTime where
  hour : Nat
  minute : Nat
  twoSeconds : Nat
  hour_lt : hour < 24
  minute_lt : minute < 60
  twoSeconds_lt : twoSeconds < 30

/-- A date, with the year counted from 1980.  Nothing depends on the lengths of the months. -/
structure DosDate where
  year : Nat
  month : Nat
  day : Nat
  year_lt : year < 128
  month_pos : 1 ≤ month
  month_le : month ≤ 12
  day_pos : 1 ≤ day
  day_le : day ≤ 31

def DosTime.packed (time : DosTime) : Nat := time.hour * 0x800 + time.minute * 0x20 + time.twoSeconds

def DosDate.packed (date : DosDate) : Nat := date.year * 0x200 + date.month * 0x20 + date.day

/-- What the standard entry of a file that is in use says. -/
structure StdDirent where
  name : List UInt8
  attr : UInt8
  res : UInt8
  timeMkS100 : UInt8
  timeMk : DosTime
  dateMk : DosDate
  dateAcc : DosDate
  firstCluster1 : UInt16
  timeMod : DosTime
  dateMod : DosDate
  firstCluster0 : UInt16
  fileSize : UInt32
  name_length : name.length = 11
  used : byteAt name 0 ≠ 0 ∧ byteAt name 0 ≠ 0xe5
  short : attr.toNat ≠ fdaLfn

def bytes16 (word : Nat) : List UInt8 := [.ofNat word, .ofNat (word / 0x100)]

def StdDirent.fields (dirent : StdDirent) : List UInt8 :=
  [dirent.attr, dirent.res, dirent.timeMkS100] ++ bytes16 dirent.timeMk.packed ++ bytes16 dirent.dateMk.packed ++
    bytes16 dirent.dateAcc.packed ++ bytes16 dirent.firstCluster1.toNat ++ bytes16 dirent.timeMod.packed ++
      bytes16 dirent.dateMod.packed ++ bytes16 dirent.firstCluster0.toNat ++ bytes16 dirent.fileSize.toNat ++
        bytes16 (dirent.fileSize.toNat / 0x10000)

/-- The 32 bytes of a `struct dirent_std`. -/
def StdDirent.encode (dirent : StdDirent) : List UInt8 := dirent.name ++ dirent.fields

/-- The decoded information is what the entry says. -/
structure StdDirent.Decoded (dirent : StdDirent) (info : FatDirentInfo) : Prop where
  attr : info.attr = dirent.attr.toNat
  cluster : info.cluster = dirent.firstCluster0.toNat
  size : info.size = dirent.fileSize.toNat
  timeMk : info.timeMkH = dirent.timeMk.hour ∧ info.timeMkM = dirent.timeMk.minute ∧
    info.timeMkS = 2 * dirent.timeMk.twoSeconds
  dateMk : info.dateMkY = dirent.dateMk.year ∧ info.dateMkM = dirent.dateMk.month ∧ info.dateMkD = dirent.dateMk.day
  dateAcc : info.dateAccY = dirent.dateAcc.year ∧ info.dateAccM = dirent.dateAcc.month ∧
    info.dateAccD = dirent.dateAcc.day
  timeMod : info.timeModH = dirent.timeMod.hour ∧ info.timeModM = dirent.timeMod.minute ∧
    info.timeModS = 2 * dirent.timeMod.twoSeconds
  dateMod : info.dateModY = dirent.dateMod.year ∧ info.dateModM = dirent.dateMod.month ∧
    info.dateModD = dirent.dateMod.day

section Words

theorem DosTime.packed_lt (time : DosTime) : time.packed < 0x10000 := by
  have := time.hour_lt
  have := time.minute_lt
  have := time.twoSeconds_lt
  unfold DosTime.packed
  omega

theorem DosDate.packed_lt (date : DosDate) : date.packed < 0x10000 := by
  have := date.year_lt
  have := date.month_le
  have := date.day_le
  unfold DosDate.packed
  omega

theorem byteAt_append {front back : List UInt8} {length : Nat} (offset : Nat) (same : front.length = length) :
    byteAt (front ++ back) (length + offset) = byteAt back offset := by
  rw [byteAt, byteAt, ← same, List.getD_append_right _ _ _ _ (Nat.le_add_right _ _), Nat.add_sub_cancel_left]

theorem le16_append {front back : List UInt8} {length : Nat} (offset : Nat) (same : front.length = length) :
    le16 (front ++ back) (length + offset) = le16 back offset := by
  rw [le16, le16, Nat.add_assoc, byteAt_append _ same, byteAt_append _ same]

theorem bytes16_value {word : Nat} (bound : word < 0x10000) :
    (UInt8.ofNat word).toNat + 2 ^ 8 * (UInt8.ofNat (word / 0x100)).toNat = word := by
  simp only [UInt8.toNat_ofNat']
  omega

end Words

section Fields

variable (dirent : StdDirent)

theorem StdDirent.direntAttr_encode : direntAttr dirent.encode = dirent.attr.toNat :=
  byteAt_append 0 dirent.name_length

theorem StdDirent.le16_encode (offset : Nat) : le16 dirent.encode (11 + offset) = le16 dirent.fields offset :=
  le16_append offset dirent.name_length

/-- Where the words of the fields that are read begin. -/
theorem StdDirent.fields_words : le16 dirent.fields 3 = dirent.timeMk.packed ∧
    le16 dirent.fields 7 = dirent.dateAcc.packed ∧ le16 dirent.fields 11 = dirent.timeMod.packed ∧
    le16 dirent.fields 15 = dirent.firstCluster0.toNat := by
  have cluster : dirent.firstCluster0.toNat < 0x10000 := dirent.firstCluster0.toNat_lt
  simp only [le16, byteAt, StdDirent.fields, bytes16, List.cons_append, List.nil_append, List.getD_cons_succ,
    List.getD_cons_zero, bytes16_value dirent.timeMk.packed_lt, bytes16_value dirent.dateAcc.packed_lt,
    bytes16_value dirent.timeMod.packed_lt, bytes16_value cluster, and_self]

theorem StdDirent.fields_size : le32 dirent.fields 17 = dirent.fileSize.toNat := by
  have bound : dirent.fileSize.toNat < 2 ^ 32 := dirent.fileSize.toNat_lt
  simp only [le32, le16, byteAt, StdDirent.fields, bytes16, List.cons_append, List.nil_append, List.getD_cons_succ,
    List.getD_cons_zero, UInt8.toNat_ofNat']
  omega

theorem StdDirent.timeMkHms_encode : direntTimeMkHms dirent.encode = dirent.timeMk.packed :=
  (dirent.le16_encode 3).trans dirent.fields_words.1

theorem StdDirent.timeAccDate_encode : direntTimeAccDate dirent.encode = dirent.dateAcc.packed :=
  (dirent.le16_encode 7).trans dirent.fields_words.2.1

theorem StdDirent.timeModHms_encode : direntTimeModHms dirent.encode = dirent.timeMod.packed :=
  (dirent.le16_encode 11).trans dirent.fields_words.2.2.1

theorem StdDirent.firstCluster0_encode : direntFirstCluster0 dirent.encode = dirent.firstCluster0.toNat :=
  (dirent.le16_encode 15).trans dirent.fields_words.2.2.2

theorem StdDirent.fileSize_encode : direntFileSize dirent.encode = dirent.fileSize.toNat := by
  rw [direntFileSize, le32, dirent.le16_encode 17, dirent.le16_encode 19]
  exact dirent.fields_size

theorem StdDirent.standard : StandardEnt dirent.encode := by
  have first : byteAt dirent.encode 0 = byteAt dirent.name 0 := by
    rw [byteAt, byteAt, StdDirent.encode, List.getD_append _ _ _ _ (by rw [dirent.name_length]; decide)]
  exact ⟨first ▸ dirent.used.1, first ▸ dirent.used.2, dirent.direntAttr_encode ▸ dirent.short⟩

end Fields

section Decode

variable {World : Type}

theorem mask_width (width value : Nat) : value &&& (2 ^ width - 1) = value % 2 ^ width :=
  Nat.and_two_pow_sub_one_eq_mod value width

/-- Hours and seconds change places, the minutes are right. -/
theorem DosTime.reversed (time : DosTime) : time.packed &&& 0x1f = time.twoSeconds ∧
    time.packed >>> 5 &&& 0x3f = time.minute ∧ time.packed >>> 11 &&& 0x1f = time.hour := by
  have := time.hour_lt
  have := time.minute_lt
  have := time.twoSeconds_lt
  refine ⟨(mask_width 5 _).trans ?_, (mask_width 6 _).trans ?_, (mask_width 5 _).trans ?_⟩ <;>
    simp only [Nat.shiftRight_eq_div_pow, DosTime.packed] <;> omega

/-- The lowest seven bits of a date, the four above them and the five above these, for a
year `4 * y + y'` and a month `4 * m + m'`. -/
theorem packedDate_bits {y y' m m' day : Nat} (yearHigh : y < 32) (yearLow : y' < 4) (monthHigh : m < 4)
    (monthLow : m' < 4) (short : day < 32) :
    ((4 * y + y') * 0x200 + (4 * m + m') * 0x20 + day) % 128 = 32 * m' + day ∧
      ((4 * y + y') * 0x200 + (4 * m + m') * 0x20 + day) / 128 % 16 = 4 * y' + m ∧
      ((4 * y + y') * 0x200 + (4 * m + m') * 0x20 + day) / 2048 % 32 = y := by
  refine ⟨?_, ?_, ?_⟩ <;> omega

/-- No date comes out right. -/
theorem DosDate.reversed (date : DosDate) : ¬(date.packed &&& 0x7f = date.year ∧
    date.packed >>> 7 &&& 0xf = date.month ∧ date.packed >>> 11 &&& 0x1f = date.day) := by
  obtain ⟨year, month, day, year_lt, month_pos, month_le, day_pos, day_le⟩ := date
  obtain ⟨y, y', rfl, yearLow⟩ : ∃ y y', year = 4 * y + y' ∧ y' < 4 := ⟨year / 4, year % 4, by omega, by omega⟩
  obtain ⟨m, m', rfl, monthLow⟩ : ∃ m m', month = 4 * m + m' ∧ m' < 4 := ⟨month / 4, month % 4, by omega, by omega⟩
  obtain ⟨low, middle, high⟩ := @packedDate_bits y y' m m' day (by omega) yearLow (by omega) monthLow (by omega)
  intro same
  simp only [DosDate.packed] at same
  have first := low.symm.trans ((mask_width 7 _).symm.trans same.1)
  have second := (mask_width 4 _).symm.trans same.2.1
  have third := (mask_width 5 _).symm.trans same.2.2
  rw [Nat.shiftRight_eq_div_pow] at second third
  have monthBits := middle.symm.trans second
  have dayBits := high.symm.trans third
  clear low middle high same second third
  omega

/-- What an entry with stamps is decoded to: all but its hours, seconds and dates. -/
structure StdDirent.DecodedSwapped (dirent : StdDirent) (info : FatDirentInfo) : Prop where
  attr : info.attr = dirent.attr.toNat
  cluster : info.cluster = dirent.firstCluster0.toNat
  size : info.size = dirent.fileSize.toNat
  timeMk : info.timeMkH = dirent.timeMk.twoSeconds ∧ info.timeMkM = dirent.timeMk.minute ∧
    info.timeMkS = 2 * dirent.timeMk.hour
  timeMod : info.timeModH = dirent.timeMod.twoSeconds ∧ info.timeModM = dirent.timeMod.minute ∧
    info.timeModS = 2 * dirent.timeMod.hour

theorem StdDirent.direntInfo_swapped (dirent : StdDirent) (name : List UInt8) :
    dirent.DecodedSwapped (direntInfo name dirent.encode) := by
  obtain ⟨made, madeMinute, madeHour⟩ := dirent.timeMk.reversed
  obtain ⟨modified, modifiedMinute, modifiedHour⟩ := dirent.timeMod.reversed
  constructor
  · exact dirent.direntAttr_encode
  · exact dirent.firstCluster0_encode
  · exact dirent.fileSize_encode
  · simp only [direntInfo, dirent.timeMkHms_encode, made, madeMinute, madeHour, and_self]
  · simp only [direntInfo, dirent.timeModHms_encode, modified, modifiedMinute, modifiedHour, and_self]

theorem StdDirent.direntInfo_wrong (dirent : StdDirent) (name : List UInt8) :
    ¬dirent.Decoded (direntInfo name dirent.encode) := by
  intro decoded
  have date := decoded.dateAcc
  simp only [direntInfo, dirent.timeAccDate_encode] at date
  exact dirent.dateAcc.reversed date

/-- What is returned for a standard entry without long-name entries, if anything is. -/
theorem StdDirent.returned {platform : Platform World} {dev : Blkdev World} {session : FatSession World}
    {contents : Nat → List UInt8} {dirent : StdDirent} {pos fuel : Nat}
    (reached : (fatSystem platform dev).Reachable session) (volume : Volume dev contents) (aligned : pos % 32 = 0)
    (inside : pos < dev.nblk * 512) (stored : entAt contents pos = dirent.encode) (enough : 0 < fuel) (world : World) :
    (session.driver.blkCache.buf ≠ none →
      ∃ returned, fatGetDirentInfo platform fuel { driver := session.driver, world } pos = .ok returned) ∧
    ∀ returned, fatGetDirentInfo platform fuel { driver := session.driver, world } pos = .ok returned →
      returned.1 = some { pos, info := direntInfo emptyName dirent.encode } := by
  have standard : StandardEnt (entAt contents pos) := stored ▸ dirent.standard
  have got := @SessionOk.getDirentInfo World platform dev contents session pos 0 fuel (fat_reachable_ok reached) volume
    world aligned inside (fun _ before => absurd before (Nat.not_lt_zero _)) standard enough
  simpa only [Nat.mul_zero, Nat.add_zero, stored] using got

/-- Whatever a standard entry with a time and dates says, `fat_get_dirent_info` does not
return it: of the fields, the attributes, the cluster, the size and the minutes are right. -/
theorem fat_dirent_stamps_reversed (platform : Platform World) (dev : Blkdev World) (session : FatSession World)
    (reached : (fatSystem platform dev).Reachable session) (contents : Nat → List UInt8) (volume : Volume dev contents)
    (pos : Nat) (aligned : pos % 32 = 0) (inside : pos < dev.nblk * 512) (dirent : StdDirent)
    (stored : entAt contents pos = dirent.encode) (fuel : Nat) (enough : 0 < fuel) (world : World) :
    (session.driver.blkCache.buf ≠ none → ∃ found after,
      fatGetDirentInfo platform fuel { driver := session.driver, world } pos = .ok (some found, after) ∧
        dirent.DecodedSwapped found.info) ∧
    ¬∃ found after, fatGetDirentInfo platform fuel { driver := session.driver, world } pos = .ok (some found, after) ∧
      dirent.Decoded found.info := by
  obtain ⟨returns, got⟩ := StdDirent.returned reached volume aligned inside stored enough world
  constructor
  · intro allocated
    obtain ⟨⟨found, after⟩, returned⟩ := returns allocated
    obtain rfl : found = some { pos, info := direntInfo emptyName dirent.encode } := got _ returned
    exact ⟨_, after, returned, dirent.direntInfo_swapped emptyName⟩
  · intro right
    obtain ⟨found, after, returned, decoded⟩ := right
    cases got _ returned
    exact dirent.direntInfo_wrong emptyName decoded

end Decode

def stampedFile : StdDirent where
  name := [0x42, 0x20, 0x20, 0x20, 0x20, 0x20, 0x20, 0x20, 0x54, 0x58, 0x54]
  attr := 0x20
  res := 0
  timeMkS100 := 0
  timeMk := ⟨13, 45, 15, by decide, by decide, by decide⟩
  dateMk := ⟨44, 5, 17, by decide, by decide, by decide, by decide, by decide⟩
  dateAcc := ⟨44, 5, 17, by decide, by decide, by decide, by decide, by decide⟩
  firstCluster1 := 0
  timeMod := ⟨13, 45, 15, by decide, by decide, by decide⟩
  dateMod := ⟨44, 5, 17, by decide, by decide, by decide, by decide, by decide⟩
  firstCluster0 := 4
  fileSize := 7
  name_length := rfl
  used := by decide
  short := by decide

theorem stampedFile_stored : entAt (rootContents stampedFile.encode) 1024 = stampedFile.encode := by decide +kernel

theorem fat_dirent_stamps_reversed_file :
    ¬∃ found after, fatGetDirentInfo .zeroed 1 { driver := rootDriver stampedFile.encode, world := () } 1024 =
      .ok (some found, after) ∧ stampedFile.Decoded found.info :=
  (fat_dirent_stamps_reversed .zeroed (rootDisk stampedFile.encode) _ (rootDriver_reachable stampedFile.encode) _
    (rootDisk_volume (by decide)) 1024 (by decide) (by decide) stampedFile stampedFile_stored 1 (by decide) ()).2

/-- The driver takes it for a file of 11 January 2029, at 15:45:26. -/
theorem fat_dirent_stamps_wrong : ∃ found after,
    fatGetDirentInfo .zeroed 1 { driver := rootDriver stampedFile.encode, world := () } 1024 = .ok (some found, after) ∧
      (found.info.timeMkH, found.info.timeMkM, found.info.timeMkS) = (15, 45, 26) ∧
      (found.info.dateMkY, found.info.dateMkM, found.info.dateMkD) = (49, 1, 11) ∧
      ¬stampedFile.Decoded found.info := by
  obtain ⟨returns, got⟩ := @StdDirent.returned Unit .zeroed (rootDisk stampedFile.encode) _ _ stampedFile 1024 1
    (rootDriver_reachable stampedFile.encode) (rootDisk_volume (by decide)) (by decide) (by decide) stampedFile_stored
    (by decide) ()
  obtain ⟨⟨found, after⟩, returned⟩ := returns (rootDriver_allocated _)
  obtain rfl : found = some { pos := 1024, info := direntInfo emptyName stampedFile.encode } := got _ returned
  exact ⟨_, after, returned, by decide, by decide, stampedFile.direntInfo_wrong emptyName⟩

end Bwuhos
