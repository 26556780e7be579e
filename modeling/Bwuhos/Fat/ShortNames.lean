import Bwuhos.Fat.LongNames
import Bwuhos.Fat.Names
import Bwuhos.Fat.Runs
import Bwuhos.Kutil
import Mathlib.Data.List.TakeWhile

namespace Bwuhos

open Bwuhos.Data

/-! # Short names

A standard entry that no long-name entry belongs to has the name in its first eleven bytes.
-/

/-- A base and an extension, without the characters that end them. -/
structure ShortName where
  base : List UInt8
  ext : List UInt8
  nonempty : base ≠ []
  base_le : base.length ≤ 8
  ext_le : ext.length ≤ 3
  plain : ∀ ch ∈ base ++ ext, ch ≠ 0x20 ∧ ch ≠ 0x2e ∧ ch ≠ 0
  kept : base.head nonempty ≠ 0xe5

namespace ShortName

def padTo (width : Nat) (chars : List UInt8) : List UInt8 := chars ++ List.replicate (width - chars.length) 0x20

def stored (name : ShortName) : List UInt8 := padTo 8 name.base ++ padTo 3 name.ext

def text (name : ShortName) : List UInt8 := if name.ext = [] then name.base else name.base ++ 0x2e :: name.ext

end ShortName

section Copies

variable {name ent : List UInt8}

/-- The characters of a field, `len` of which come before a space, are what is copied of it. -/
theorem beforeSpace_take (field : List UInt8) : field.take (beforeSpace field).length = beforeSpace field :=
  (List.prefix_iff_eq_take.mp (List.takeWhile_prefix _)).symm

theorem kuMemcpy_overlay {src : List UInt8} {off n : Nat} (room : off + n ≤ name.length) (source : n ≤ src.length) :
    kuMemcpy name off src n = overlay name off (src.take n) := by
  rw [kuMemcpy_eq room source, overlay, List.length_take, Nat.min_eq_left source]

theorem overlay_length {off : Nat} {chars : List UInt8} (room : off + chars.length ≤ name.length) :
    (overlay name off chars).length = name.length := by
  simp only [overlay, List.length_append, List.length_take, List.length_drop]
  omega

/-- The DOS name by the calls of `ku_memcpy` that the source makes. -/
def dosNameMemcpy (name ent : List UInt8) : List UInt8 :=
  let nameLen := (beforeSpace (ent.take 8)).length
  let extLen := (beforeSpace ((ent.drop 8).take 3)).length
  if nameLen ≠ 0 ∧ extLen ≠ 0 then
    kuMemcpy (kuMemcpy (kuMemcpy name 0 ent nameLen) nameLen [0x2e, 0] 1) (nameLen + 1) (ent.drop 8) extLen
  else if nameLen ≠ 0 then kuMemcpy name 0 ent nameLen
  else if extLen ≠ 0 then kuMemcpy name 0 (ent.drop 8) extLen
  else name

theorem dosNameMemcpy_eq (room : 12 ≤ name.length) (size : 11 ≤ ent.length) :
    dosNameMemcpy name ent = dosName name ent := by
  have base_le := (beforeSpace_length (ent.take 8)).trans (List.length_take_le 8 ent)
  have ext_le := (beforeSpace_length ((ent.drop 8).take 3)).trans (List.length_take_le 3 (ent.drop 8))
  have base := beforeSpace_take (ent.take 8)
  have ext := beforeSpace_take ((ent.drop 8).take 3)
  rw [List.take_take, Nat.min_eq_left base_le] at base
  rw [List.take_take, Nat.min_eq_left ext_le] at ext
  have drop : (ent.drop 8).length = ent.length - 8 := List.length_drop
  have copyBase : kuMemcpy name 0 ent (beforeSpace (ent.take 8)).length =
      overlay name 0 (beforeSpace (ent.take 8)) := by
    rw [kuMemcpy_overlay (by omega) (by omega), base]
  have copyExt : ∀ {dst off}, off + 3 ≤ dst.length →
      kuMemcpy dst off (ent.drop 8) (beforeSpace ((ent.drop 8).take 3)).length =
        overlay dst off (beforeSpace ((ent.drop 8).take 3)) := by
    intro dst off fits
    rw [kuMemcpy_overlay (by omega) (by omega), ext]
  have copyDot : ∀ {dst off}, off + 1 ≤ dst.length → kuMemcpy dst off [0x2e, 0] 1 = overlay dst off [0x2e] :=
    fun fits => kuMemcpy_overlay fits (by decide)
  have filled : (overlay name 0 (beforeSpace (ent.take 8))).length = name.length := overlay_length (by omega)
  have dotted : (overlay (overlay name 0 (beforeSpace (ent.take 8))) (beforeSpace (ent.take 8)).length [0x2e]).length =
      name.length := (overlay_length (by rw [filled, List.length_singleton]; omega)).trans filled
  simp only [dosNameMemcpy, dosName, ne_eq, List.length_eq_zero_iff]
  rw [copyBase, copyDot (by omega), copyExt (by omega), copyExt (by omega)]

end Copies

section Text

variable {name : ShortName} {ent : List UInt8}

theorem beforeSpace_padTo {width : Nat} {chars : List UInt8} (plain : ∀ ch ∈ chars, ch ≠ 0x20) :
    beforeSpace (ShortName.padTo width chars) = chars := by
  rw [beforeSpace, ShortName.padTo, List.takeWhile_append_of_pos fun ch member => decide_eq_true (plain ch member)]
  cases width - chars.length with
  | zero => exact List.append_nil _
  | succ rest => simp [List.replicate_succ]

theorem overlay_end {front chars : List UInt8} (count : Nat) :
    overlay (front ++ List.replicate (chars.length + count) 0) front.length chars =
      front ++ chars ++ List.replicate count 0 := by
  rw [overlay, List.take_left, List.drop_append]
  simp

namespace ShortName

theorem padTo_length {width : Nat} {chars : List UInt8} (fits : chars.length ≤ width) :
    (padTo width chars).length = width := by
  rw [padTo, List.length_append, List.length_replicate]
  omega

theorem base_plain (name : ShortName) : ∀ ch ∈ name.base, ch ≠ 0x20 ∧ ch ≠ 0x2e ∧ ch ≠ 0 :=
  fun ch member => name.plain ch (List.mem_append_left _ member)

theorem ext_plain (name : ShortName) : ∀ ch ∈ name.ext, ch ≠ 0x20 ∧ ch ≠ 0x2e ∧ ch ≠ 0 :=
  fun ch member => name.plain ch (List.mem_append_right _ member)

/-- The scans of the driver find the two parts of the name. -/
theorem parts (has : ent.take 11 = name.stored) :
    beforeSpace (ent.take 8) = name.base ∧ beforeSpace ((ent.drop 8).take 3) = name.ext := by
  have base : ent.take 8 = padTo 8 name.base := by
    have taken := congrArg (List.take 8) has
    rw [List.take_take] at taken
    exact taken.trans (List.take_left' (padTo_length name.base_le))
  have ext : (ent.drop 8).take 3 = padTo 3 name.ext := by
    have dropped := congrArg (List.drop 8) has
    rw [List.drop_take] at dropped
    exact dropped.trans (List.drop_left' (padTo_length name.base_le))
  rw [base, ext]
  exact ⟨beforeSpace_padTo fun ch member => (name.base_plain ch member).1,
    beforeSpace_padTo fun ch member => (name.ext_plain ch member).1⟩

theorem stored_length (name : ShortName) : name.stored.length = 11 := by
  rw [stored, List.length_append, padTo_length name.base_le, padTo_length name.ext_le]

theorem length_of_stored (has : ent.take 11 = name.stored) : 11 ≤ ent.length := by
  have same := congrArg List.length has
  rw [List.length_take, stored_length] at same
  omega

theorem text_length (name : ShortName) : name.text.length ≤ 12 := by
  have := name.base_le
  have := name.ext_le
  unfold text
  split
  · omega
  · simp only [List.length_append, List.length_cons]
    omega

/-- The driver puts the text of the name in front of zeros. -/
theorem dosName_eq (has : ent.take 11 = name.stored) :
    dosName emptyName ent = name.text ++ List.replicate (255 - name.text.length) 0 := by
  obtain ⟨base, ext⟩ := parts has
  have base_le := name.base_le
  have ext_le := name.ext_le
  have first : overlay emptyName 0 name.base = name.base ++ List.replicate (255 - name.base.length) 0 := by
    have whole : emptyName = [] ++ List.replicate (name.base.length + (255 - name.base.length)) 0 := by
      rw [Nat.add_sub_cancel' (by omega)]
      rfl
    rw [whole]
    exact overlay_end _
  rw [dosName, base, ext]
  by_cases bare : name.ext = []
  · rw [if_neg fun both => both.2 bare, if_pos name.nonempty, first, text, if_pos bare]
  · have second : overlay (overlay emptyName 0 name.base) name.base.length [0x2e] =
        name.base ++ [0x2e] ++ List.replicate (254 - name.base.length) 0 := by
      rw [first, show 255 - name.base.length = [(0x2e : UInt8)].length + (254 - name.base.length) by
        rw [List.length_singleton]
        omega]
      exact overlay_end _
    have dotted : (name.base ++ [0x2e]).length = name.base.length + 1 := List.length_append
    have third := @overlay_end (name.base ++ [0x2e]) name.ext (254 - name.base.length - name.ext.length)
    rw [Nat.add_sub_cancel' (by omega), dotted] at third
    have length : (name.base ++ 0x2e :: name.ext).length = name.base.length + (name.ext.length + 1) :=
      List.length_append
    rw [if_pos ⟨name.nonempty, bare⟩, second, third, text, if_neg bare, length, List.append_assoc name.base,
      List.singleton_append]
    congr 2
    omega

theorem text_plain (name : ShortName) : ∀ ch ∈ name.text, ch ≠ 0 := by
  intro ch member
  unfold text at member
  split at member
  · exact (name.base_plain ch member).2.2
  · cases List.mem_append.mp member with
    | inl inBase => exact (name.base_plain ch inBase).2.2
    | inr behind =>
        cases behind with
        | head => decide
        | tail _ inExt => exact (name.ext_plain ch inExt).2.2

theorem cString_text (name : ShortName) (count : Nat) : cString (name.text ++ List.replicate count 0) = name.text := by
  rw [cString, List.takeWhile_append_of_pos fun ch member => decide_eq_true (name.text_plain ch member)]
  cases count with
  | zero => exact List.append_nil _
  | succ count => simp [List.replicate_succ]

/-- The first dot of the text ends the base. -/
theorem text_split (name : ShortName) :
    name.text.takeWhile (· ≠ 0x2e) = name.base ∧ (name.text.dropWhile (· ≠ 0x2e)).drop 1 = name.ext := by
  have before : ∀ ch ∈ name.base, decide (ch ≠ 0x2e) = true :=
    fun ch member => decide_eq_true (name.base_plain ch member).2.1
  unfold text
  split
  · next bare =>
      rw [List.takeWhile_eq_self_iff.mpr before, List.dropWhile_eq_nil_iff.mpr before, bare]
      exact ⟨rfl, rfl⟩
  · rw [List.takeWhile_append_of_pos before, List.dropWhile_append_of_pos before]
    simp

theorem text_inj {left right : ShortName} (same : left.text = right.text) : left.stored = right.stored := by
  have base := left.text_split.1
  have ext := left.text_split.2
  rw [same, right.text_split.1] at base
  rw [same, right.text_split.2] at ext
  rw [stored, stored, base, ext]

theorem first_byte (has : ent.take 11 = name.stored) : byteAt ent 0 = (name.base.head name.nonempty).toNat := by
  have taken : byteAt ent 0 = byteAt (ent.take 11) 0 := by cases ent <;> rfl
  obtain ⟨base, ext, nonempty, base_le, ext_le, plain, kept⟩ := name
  rw [taken, has, stored, padTo, byteAt]
  cases base with
  | nil => exact absurd rfl nonempty
  | cons first rest => rfl

/-- An entry with the name is in use. -/
theorem first_kept (has : ent.take 11 = name.stored) : byteAt ent 0 ≠ 0 ∧ byteAt ent 0 ≠ 0xe5 := by
  rw [first_byte has]
  constructor
  · intro zero
    exact (name.base_plain _ (List.head_mem name.nonempty)).2.2 (UInt8.toNat_inj.mp zero)
  · intro deleted
    exact name.kept (UInt8.toNat_inj.mp deleted)

end ShortName

end Text

section Entries

variable {World : Type}

/-- From `pos` on, behind `index` deleted entries, is a standard entry with the name.  There
are no long-name entries. -/
structure ShortEntry (dev : Blkdev World) (contents : Nat → List UInt8) (pos index : Nat) (name : ShortName) :
    Prop where
  aligned : pos % 32 = 0
  inside : pos + 32 * index < dev.nblk * 512
  deleted : ∀ earlier < index, byteAt (entAt contents (pos + 32 * earlier)) 0 = 0xe5
  has : (entAt contents (pos + 32 * index)).take 11 = name.stored
  short : direntAttr (entAt contents (pos + 32 * index)) ≠ fdaLfn

theorem ShortEntry.standard {dev : Blkdev World} {contents : Nat → List UInt8} {pos index : Nat} {name : ShortName}
    (entry : ShortEntry dev contents pos index name) : StandardEnt (entAt contents (pos + 32 * index)) :=
  ⟨(ShortName.first_kept entry.has).1, (ShortName.first_kept entry.has).2, entry.short⟩

/-- The name that `fat_get_dirent_info` returns for an entry with a short name is its text. -/
theorem ShortEntry.returned {platform : Platform World} {dev : Blkdev World} {session : FatSession World}
    {contents : Nat → List UInt8} {pos index fuel : Nat} {name : ShortName}
    (entry : ShortEntry dev contents pos index name) (ok : SessionOk platform dev session)
    (volume : Volume dev contents) (enough : index < fuel) (world : World) :
    (session.driver.blkCache.buf ≠ none →
      ∃ found after, fatGetDirentInfo platform fuel { driver := session.driver, world } pos = .ok (some found, after)) ∧
    ∀ found after, fatGetDirentInfo platform fuel { driver := session.driver, world } pos = .ok (found, after) →
      ∃ dirent, found = some dirent ∧
        dirent.info.name = name.text ++ List.replicate (255 - name.text.length) 0 := by
  obtain ⟨returns, got⟩ := ok.getDirentInfo volume world entry.aligned entry.inside entry.deleted entry.standard enough
  have text := ShortName.dosName_eq entry.has
  constructor
  · intro allocated
    obtain ⟨⟨found, after⟩, returned⟩ := returns allocated
    obtain rfl := got _ returned
    exact ⟨_, after, returned⟩
  · intro found after returned
    obtain rfl := got _ returned
    exact ⟨_, rfl, text⟩

/-- On every volume an entry with a short name that no long-name entries precede is given
back with the text of that name, the base, then a dot and the extension where there is one,
in front of zeros, as the calls of `ku_memcpy` leave it.  Entries with different names never
come back with one name. -/
theorem fat_short_names (platform : Platform World) (dev : Blkdev World) (contents : Nat → List UInt8)
    (volume : Volume dev contents) :
    (∀ session, (fatSystem platform dev).Reachable session → ∀ pos index name,
      ShortEntry dev contents pos index name → ∀ fuel, index < fuel → ∀ world,
        (session.driver.blkCache.buf ≠ none → ∃ found after,
          fatGetDirentInfo platform fuel { driver := session.driver, world } pos = .ok (some found, after)) ∧
        ∀ found after, fatGetDirentInfo platform fuel { driver := session.driver, world } pos = .ok (found, after) →
          ∃ dirent, found = some dirent ∧
            dirent.info.name = dosNameMemcpy emptyName (entAt contents (pos + 32 * index)) ∧
            dirent.info.name = name.text ++ List.replicate (255 - name.text.length) 0 ∧
            cString dirent.info.name = name.text ∧ name.text.length < dirent.info.name.length) ∧
    ∀ (session session' : FatSession World), (fatSystem platform dev).Reachable session →
      (fatSystem platform dev).Reachable session' → ∀ pos index name pos' index' name',
      ShortEntry dev contents pos index name → ShortEntry dev contents pos' index' name' →
      name.stored ≠ name'.stored → ∀ fuel fuel', index < fuel → index' < fuel' →
      ∀ world world' found found' after after',
        fatGetDirentInfo platform fuel { driver := session.driver, world } pos = .ok (some found, after) →
        fatGetDirentInfo platform fuel' { driver := session'.driver, world := world' } pos' =
          .ok (some found', after') → cString found.info.name ≠ cString found'.info.name := by
  constructor
  · intro session reached pos index name entry fuel enough world
    obtain ⟨returns, got⟩ := entry.returned (fat_reachable_ok reached) volume enough world
    refine ⟨returns, fun found after returned => ?_⟩
    obtain ⟨dirent, rfl, text⟩ := got found after returned
    have copied : dosNameMemcpy emptyName (entAt contents (pos + 32 * index)) = dosName emptyName _ :=
      dosNameMemcpy_eq (by rw [emptyName, List.length_replicate]; omega) (ShortName.length_of_stored entry.has)
    have short := name.text_length
    refine ⟨dirent, rfl, ?_, text, ?_, ?_⟩
    · rw [copied, text, ShortName.dosName_eq entry.has]
    · rw [text, ShortName.cString_text]
    · rw [text, List.length_append, List.length_replicate]
      omega
  · intro session session' reached reached' pos index name pos' index' name' entry entry' different fuel fuel' enough
      enough' world world' found found' after after' returned returned' same
    obtain ⟨_, shape, text⟩ := (entry.returned (fat_reachable_ok reached) volume enough world).2 _ _ returned
    obtain ⟨_, shape', text'⟩ := (entry'.returned (fat_reachable_ok reached') volume enough' world').2 _ _ returned'
    cases shape
    cases shape'
    rw [text, text', ShortName.cString_text, ShortName.cString_text] at same
    exact different (ShortName.text_inj same)

end Entries

def fileName : ShortName where
  base := [0x42]
  ext := [0x54, 0x58, 0x54]
  nonempty := List.cons_ne_nil _ _
  base_le := by decide
  ext_le := by decide
  plain := by simp
  kept := by decide

theorem fileName_entry : ShortEntry smallDisk smallContents 2048 0 fileName where
  aligned := by decide
  inside := by decide
  deleted := fun _ before => absurd before (Nat.not_lt_zero _)
  has := by decide +kernel
  short := by decide +kernel

theorem fat_short_names_file : ∃ found after,
    fatGetDirentInfo .zeroed 1 { driver := smallDriver, world := () } 2048 = .ok (some found, after) ∧
      cString found.info.name = [0x42, 0x2e, 0x54, 0x58, 0x54] := by
  obtain ⟨returns, got⟩ := (fat_short_names .zeroed smallDisk smallContents smallDisk_volume).1 _ smallDriver_reachable
    2048 0 fileName fileName_entry 1 (by decide) ()
  obtain ⟨found, after, returned⟩ := returns smallDriver_allocated
  obtain ⟨dirent, shape, _, _, text, _⟩ := got _ _ returned
  cases shape
  exact ⟨found, after, returned, text.trans (by decide)⟩

end Bwuhos
