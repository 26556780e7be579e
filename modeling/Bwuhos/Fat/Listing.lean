import Bwuhos.Fat.Dirent
import Bwuhos.BlkCache.Reads

namespace Bwuhos

open Bwuhos.Data

/-! # Directory listings

What a directory holds, as a function of the bytes of the device: a standard entry
with the long-name entries before it is one logical entry.
-/

def entAt (contents : Nat → List UInt8) (pos : Nat) : List UInt8 := deviceBytes contents 512 pos 32

def entsFrom (contents : Nat → List UInt8) (pos : Nat) : Nat → List (List UInt8)
  | 0 => []
  | count + 1 => entAt contents pos :: entsFrom contents (pos + 32) count

def EndsDirectory (ent : List UInt8) : Prop := byteAt ent 0 = 0

def StandardEnt (ent : List UInt8) : Prop := byteAt ent 0 ≠ 0 ∧ byteAt ent 0 ≠ 0xe5 ∧ direntAttr ent ≠ fdaLfn

def putName (name ent : List UInt8) : List UInt8 :=
  (lfnChars ent).foldl (fun name place => name.set place.1 place.2) name

structure LogicalEnt where
  start : Nat
  dirent : DirentAt
deriving Repr, DecidableEq

/-- The logical entries of a directory, from the entries at `pos` on: `start` is where
the current one begins and `name` is what its long-name entries have given so far. -/
def logicalEnts (start : Nat) (name : List UInt8) (pos : Nat) : List (List UInt8) → List LogicalEnt
  | [] => []
  | ent :: rest =>
      if byteAt ent 0 = 0 then []
      else if byteAt ent 0 = 0xe5 then logicalEnts start name (pos + 32) rest
      else if direntAttr ent = fdaLfn then logicalEnts start (putName name ent) (pos + 32) rest
      else { start, dirent := { pos, info := direntInfo name ent } } ::
        logicalEnts (pos + 32) emptyName (pos + 32) rest

def listing (contents : Nat → List UInt8) (nblk pos : Nat) : List LogicalEnt :=
  logicalEnts pos emptyName pos (entsFrom contents pos ((nblk * 512 - pos) / 32))

/-- A long-name entry has a sequence number that leaves its characters inside the name. -/
def OrderFits (ent : List UInt8) : Prop :=
  byteAt ent 0 ≠ 0xe5 → direntAttr ent = fdaLfn → lfnOrder ent ≤ 18

instance : DecidablePred EndsDirectory := fun _ => inferInstanceAs (Decidable (_ = _))

instance : DecidablePred OrderFits := fun _ => inferInstanceAs (Decidable (_ → _))

section Positions

variable {contents : Nat → List UInt8} {start pos count nblk : Nat} {name : List UInt8} {ents : List (List UInt8)}

theorem logicalEnts_cons {ent : List UInt8} : logicalEnts start name pos (ent :: ents) =
    if byteAt ent 0 = 0 then []
    else if byteAt ent 0 = 0xe5 then logicalEnts start name (pos + 32) ents
    else if direntAttr ent = fdaLfn then logicalEnts start (putName name ent) (pos + 32) ents
    else { start, dirent := { pos, info := direntInfo name ent } } ::
      logicalEnts (pos + 32) emptyName (pos + 32) ents := rfl

theorem logicalEnts_bounds (order : start ≤ pos) : ∀ logical ∈ logicalEnts start name pos ents,
    start ≤ logical.start ∧ logical.start ≤ logical.dirent.pos ∧ pos ≤ logical.dirent.pos := by
  induction ents generalizing start name pos with
  | nil => exact fun logical member => absurd member List.not_mem_nil
  | cons ent rest ih =>
      intro logical member
      rw [logicalEnts_cons] at member
      split at member
      · cases member
      · split at member
        · have bounds := ih (Nat.le_add_right_of_le order) logical member
          exact ⟨bounds.1, bounds.2.1, by omega⟩
        · split at member
          · have bounds := ih (Nat.le_add_right_of_le order) logical member
            exact ⟨bounds.1, bounds.2.1, by omega⟩
          · rcases List.mem_cons.mp member with rfl | later
            · exact ⟨Nat.le_refl _, order, Nat.le_refl _⟩
            · have bounds := ih (Nat.le_refl _) logical later
              exact ⟨by omega, bounds.2.1, by omega⟩

theorem logicalEnts_sorted (order : start ≤ pos) :
    (logicalEnts start name pos ents).Pairwise fun left right => left.dirent.pos < right.start := by
  induction ents generalizing start name pos with
  | nil => exact .nil
  | cons ent rest ih =>
      rw [logicalEnts_cons]
      split
      · exact .nil
      · split
        · exact ih (Nat.le_add_right_of_le order)
        · split
          · exact ih (Nat.le_add_right_of_le order)
          · refine List.pairwise_cons.mpr ⟨fun later member => ?_, ih (Nat.le_refl _)⟩
            have bounds := logicalEnts_bounds (Nat.le_refl _) later member
            simp only
            omega

/-- The entry number `index` from `pos` on is standard and comes before the end of the directory. -/
def StandardIndex (contents : Nat → List UInt8) (pos count index : Nat) : Prop :=
  index < count ∧ StandardEnt (entAt contents (pos + 32 * index)) ∧
    ∀ earlier < index, ¬EndsDirectory (entAt contents (pos + 32 * earlier))

theorem standardIndex_zero : StandardIndex contents pos (count + 1) 0 ↔ StandardEnt (entAt contents pos) := by
  simp [StandardIndex]

theorem standardIndex_succ {index : Nat} : StandardIndex contents pos (count + 1) (index + 1) ↔
    ¬EndsDirectory (entAt contents pos) ∧ StandardIndex contents (pos + 32) count index := by
  have shift : ∀ k, pos + 32 * (k + 1) = pos + 32 + 32 * k := fun k => by omega
  simp only [StandardIndex, shift, Nat.add_lt_add_iff_right]
  constructor
  · rintro ⟨bound, standard, open_⟩
    exact ⟨open_ 0 (Nat.succ_pos _), bound, standard, fun earlier before =>
      shift earlier ▸ open_ (earlier + 1) (Nat.succ_lt_succ before)⟩
  · rintro ⟨first, bound, standard, later⟩
    refine ⟨bound, standard, fun earlier before => ?_⟩
    cases earlier with
    | zero => exact first
    | succ earlier => exact shift earlier ▸ later earlier (Nat.lt_of_succ_lt_succ before)

/-- The logical entries are those of the standard entries before the end of the directory. -/
theorem mem_logicalEnts_iff {index : Nat} (order : start ≤ pos) :
    (∃ logical ∈ logicalEnts start name pos (entsFrom contents pos count), logical.dirent.pos = pos + 32 * index) ↔
      StandardIndex contents pos count index := by
  induction count generalizing start name pos index with
  | zero => simp [entsFrom, logicalEnts, StandardIndex]
  | succ count ih =>
      have later : start ≤ pos + 32 := by omega
      rw [entsFrom, logicalEnts_cons]
      cases index with
      | zero =>
          have notHere : ∀ name', ¬∃ logical ∈ logicalEnts start name' (pos + 32) (entsFrom contents (pos + 32) count),
              logical.dirent.pos = pos + 32 * 0 := by
            rintro name' ⟨logical, member, same⟩
            have bounds := logicalEnts_bounds later logical member
            omega
          rw [standardIndex_zero]
          split
          · next ends =>
              exact iff_of_false (fun ⟨_, member, _⟩ => List.not_mem_nil member)
                fun standard => standard.1 ends
          · next ends =>
              split
              · next unused => exact iff_of_false (notHere _) fun standard => standard.2.1 unused
              · next unused =>
                  split
                  · next long => exact iff_of_false (notHere _) fun standard => standard.2.2 long
                  · next long => exact iff_of_true ⟨_, List.mem_cons_self .., rfl⟩ ⟨ends, unused, long⟩
      | succ index =>
          have shift : pos + 32 * (index + 1) = pos + 32 + 32 * index := by omega
          rw [standardIndex_succ, shift]
          split
          · next ends =>
              exact iff_of_false (fun ⟨_, member, _⟩ => List.not_mem_nil member) fun standard => standard.1 ends
          · next ends =>
              have rest : ∀ {start' name'}, start' ≤ pos + 32 → ((∃ logical ∈ logicalEnts start' name' (pos + 32)
                  (entsFrom contents (pos + 32) count), logical.dirent.pos = pos + 32 + 32 * index) ↔
                    ¬EndsDirectory (entAt contents pos) ∧ StandardIndex contents (pos + 32) count index) :=
                fun order' => (ih order').trans (and_iff_right ends).symm
              split
              · exact rest later
              · split
                · exact rest later
                · have different : ¬pos = pos + 32 + 32 * index := by omega
                  simp only [List.mem_cons, exists_eq_or_imp, different, false_or]
                  exact rest (Nat.le_refl _)

theorem logicalEnts_index (order : start ≤ pos) {logical : LogicalEnt}
    (member : logical ∈ logicalEnts start name pos (entsFrom contents pos count)) :
    ∃ index, logical.dirent.pos = pos + 32 * index ∧ StandardIndex contents pos count index := by
  have index : ∃ index, logical.dirent.pos = pos + 32 * index := by
    clear order
    induction count generalizing start name pos with
    | zero => cases member
    | succ count ih =>
        have later : ∀ {start' name'}, logical ∈ logicalEnts start' name' (pos + 32)
          (entsFrom contents (pos + 32) count) →
            ∃ index, logical.dirent.pos = pos + 32 * index := fun member' => by
          obtain ⟨index, position⟩ := ih member'
          exact ⟨index + 1, by omega⟩
        rw [entsFrom, logicalEnts_cons] at member
        split at member
        · cases member
        · split at member
          · exact later member
          · split at member
            · exact later member
            · rcases List.mem_cons.mp member with rfl | member'
              · exact ⟨0, rfl⟩
              · exact later member'
  obtain ⟨index, position⟩ := index
  exact ⟨index, position, (mem_logicalEnts_iff order).mp ⟨logical, member, position⟩⟩

theorem logicalEnts_split {logical : LogicalEnt} {rest : List LogicalEnt}
    (listed : logicalEnts start name pos (entsFrom contents pos count) = logical :: rest) :
    logical.start = start ∧ ∃ index later, count = index + 1 + later ∧ logical.dirent.pos = pos + 32 * index ∧
      StandardIndex contents pos count index ∧
      rest = logicalEnts (logical.dirent.pos + 32) emptyName (logical.dirent.pos + 32)
        (entsFrom contents (logical.dirent.pos + 32) later) := by
  induction count generalizing name pos with
  | zero => cases listed
  | succ count ih =>
      have behind : ∀ {name'}, ¬EndsDirectory (entAt contents pos) →
          logicalEnts start name' (pos + 32) (entsFrom contents (pos + 32) count) = logical :: rest →
          logical.start = start ∧ ∃ index later, count + 1 = index + 1 + later ∧
            logical.dirent.pos = pos + 32 * index ∧
            StandardIndex contents pos (count + 1) index ∧
            rest = logicalEnts (logical.dirent.pos + 32) emptyName (logical.dirent.pos + 32)
              (entsFrom contents (logical.dirent.pos + 32) later) := fun notEnd listed' => by
        obtain ⟨same, index, later, total, position, standard, remaining⟩ := ih listed'
        exact ⟨same, index + 1, later, by omega, by omega, standardIndex_succ.mpr ⟨notEnd, standard⟩, remaining⟩
      rw [entsFrom, logicalEnts_cons] at listed
      split at listed
      · cases listed
      · next notEnd =>
          split at listed
          · exact behind notEnd listed
          · next used =>
              split at listed
              · exact behind notEnd listed
              · next short =>
                  cases listed
                  exact ⟨rfl, 0, count, by omega, rfl, standardIndex_zero.mpr ⟨notEnd, used, short⟩, rfl⟩

theorem logicalEnts_length : (logicalEnts start name pos ents).length ≤ ents.length := by
  induction ents generalizing start name pos with
  | nil => exact Nat.le_refl _
  | cons ent rest ih =>
      rw [logicalEnts_cons]
      split
      · exact Nat.zero_le _
      · split
        · exact Nat.le_succ_of_le ih
        · split
          · exact Nat.le_succ_of_le ih
          · exact Nat.succ_le_succ ih

/-- What lies behind the end of a directory does not matter. -/
theorem logicalEnts_upTo {last : Nat} (bound : last < count)
    (ends : EndsDirectory (entAt contents (pos + 32 * last))) :
    logicalEnts start name pos (entsFrom contents pos count) =
      logicalEnts start name pos (entsFrom contents pos last) := by
  induction last generalizing start name pos count with
  | zero =>
      obtain ⟨count, rfl⟩ := Nat.exists_eq_add_of_lt bound
      exact if_pos ends
  | succ last ih =>
      obtain ⟨count, rfl⟩ := Nat.exists_eq_add_one_of_ne_zero (Nat.ne_zero_of_lt bound)
      have further : EndsDirectory (entAt contents (pos + 32 + 32 * last)) := by
        rwa [show pos + 32 + 32 * last = pos + 32 * (last + 1) by omega]
      simp only [entsFrom, logicalEnts_cons, ih (Nat.lt_of_succ_lt_succ bound) further]

theorem entsFrom_length : (entsFrom contents pos count).length = count := by
  induction count generalizing pos with
  | zero => rfl
  | succ count ih => rw [entsFrom, List.length_cons, ih]

end Positions

/-- The comparison of `fat_find_dirent` takes the name to be that of the entry. -/
def Named (name : List UInt8) (logical : LogicalEnt) : Prop := direntDiff name logical.dirent.info.name = 0

instance (name : List UInt8) : DecidablePred (Named name) := fun _ => inferInstanceAs (Decidable (_ = _))

def firstNamed (name : List UInt8) (ents : List LogicalEnt) : Option LogicalEnt := ents.find? (Named name ·)

def upToNamed (name : List UInt8) (ents : List LogicalEnt) : List LogicalEnt :=
  ents.takeWhile (¬Named name ·) ++ (firstNamed name ents).toList

section Search

variable {contents : Nat → List UInt8} {nblk pos count : Nat} {name : List UInt8} {logical : LogicalEnt}
  {ents : List LogicalEnt}

theorem firstNamed_here (named : Named name logical) : firstNamed name (logical :: ents) = some logical :=
  List.find?_cons_of_pos (decide_eq_true named)

theorem firstNamed_later (other : ¬Named name logical) : firstNamed name (logical :: ents) = firstNamed name ents :=
  List.find?_cons_of_neg (by simpa using other)

theorem upToNamed_here (named : Named name logical) : upToNamed name (logical :: ents) = [logical] := by
  rw [upToNamed, firstNamed_here named, List.takeWhile_cons_of_neg (by simpa using named)]
  rfl

theorem upToNamed_later (other : ¬Named name logical) :
    upToNamed name (logical :: ents) = logical :: upToNamed name ents := by
  rw [upToNamed, firstNamed_later other, List.takeWhile_cons_of_pos (by simpa using other)]
  rfl

/-- A standard entry of the directory at `pos` lies at `q`. -/
def StandardAt (contents : Nat → List UInt8) (nblk pos q : Nat) : Prop :=
  ∃ index, q = pos + 32 * index ∧ StandardIndex contents pos ((nblk * 512 - pos) / 32) index

/-- The standard entry at `q` has the name. -/
def NamedAt (contents : Nat → List UInt8) (nblk pos : Nat) (name : List UInt8) (q : Nat) : Prop :=
  ∃ logical ∈ listing contents nblk pos, logical.dirent.pos = q ∧ Named name logical

theorem standardAt_iff {q : Nat} :
    StandardAt contents nblk pos q ↔ ∃ logical ∈ listing contents nblk pos, logical.dirent.pos = q := by
  constructor
  · rintro ⟨index, rfl, standard⟩
    exact (mem_logicalEnts_iff (Nat.le_refl _)).mpr standard
  · rintro ⟨logical, member, rfl⟩
    exact logicalEnts_index (Nat.le_refl _) member

/-- The long-name entries before the end of the directory and before the first entry with
the name leave their characters inside the name. -/
def OrdersMet (contents : Nat → List UInt8) (pos count : Nat) (name : List UInt8) : Prop :=
  ∀ index < count, (∀ earlier < index, ¬EndsDirectory (entAt contents (pos + 32 * earlier))) →
    (∀ logical ∈ logicalEnts pos emptyName pos (entsFrom contents pos count),
      logical.dirent.pos < pos + 32 * index → ¬Named name logical) →
    OrderFits (entAt contents (pos + 32 * index))

/-- What holds of each entry up to the end of a directory holds of each one that is not behind it. -/
theorem before_end {holds : List UInt8 → Prop} {last index : Nat}
    (ends : EndsDirectory (entAt contents (pos + 32 * last)))
    (before : ∀ index < last, holds (entAt contents (pos + 32 * index)))
    (atEnd : ∀ ent, EndsDirectory ent → holds ent)
    (notEnd : ∀ earlier < index, ¬EndsDirectory (entAt contents (pos + 32 * earlier))) :
    holds (entAt contents (pos + 32 * index)) := by
  rcases Nat.lt_trichotomy index last with sooner | rfl | behind
  · exact before index sooner
  · exact atEnd _ ends
  · exact absurd ends (notEnd last behind)

theorem EndsDirectory.orderFits {ent : List UInt8} (ends : EndsDirectory ent) : OrderFits ent :=
  fun _ _ => Nat.le_trans (Nat.le_of_eq ends) (by decide)

theorem OrdersMet.of_end {last : Nat} (ends : EndsDirectory (entAt contents (pos + 32 * last)))
    (fits : ∀ index < last, OrderFits (entAt contents (pos + 32 * index))) : OrdersMet contents pos count name :=
  fun _ _ notEnd _ => before_end ends fits (fun _ => EndsDirectory.orderFits) notEnd

theorem OrdersMet.tail {index later : Nat} {rest : List LogicalEnt} (met : OrdersMet contents pos count name)
    (listed : logicalEnts pos emptyName pos (entsFrom contents pos count) = logical :: rest)
    (other : ¬Named name logical) (total : count = index + 1 + later)
    (position : logical.dirent.pos = pos + 32 * index)
    (standard : StandardIndex contents pos count index)
    (remaining : rest = logicalEnts (logical.dirent.pos + 32) emptyName (logical.dirent.pos + 32)
      (entsFrom contents (logical.dirent.pos + 32) later)) :
    OrdersMet contents (logical.dirent.pos + 32) later name := by
  intro further bound notEnd others
  have shift : ∀ k, logical.dirent.pos + 32 + 32 * k = pos + 32 * (index + 1 + k) := fun k => by omega
  rw [shift] at others ⊢
  refine met (index + 1 + further) (by omega) (fun earlier before => ?_) fun logical' member before => ?_
  · rcases Nat.lt_trichotomy earlier index with sooner | rfl | behind
    · exact standard.2.2 earlier sooner
    · exact standard.2.1.1
    · have := notEnd (earlier - (index + 1)) (by omega)
      rwa [shift, show index + 1 + (earlier - (index + 1)) = earlier by omega] at this
  · rw [listed] at member
    rcases List.mem_cons.mp member with rfl | member'
    · exact other
    · exact others logical' (remaining ▸ member') before

end Search

end Bwuhos
