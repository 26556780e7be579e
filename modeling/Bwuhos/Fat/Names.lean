import Bwuhos.Fat.Search

namespace Bwuhos

open Bwuhos.Data

/-! # Names in directories

`fat_find_dirent` compares two names only up to the end of the shorter one.
-/

/-- The string in a character array. -/
def cString (chars : List UInt8) : List UInt8 := chars.takeWhile (· ≠ 0)

def lowered (name : List UInt8) : List UInt8 := name.map toLower

/-- Two names that differ at most in the case of their ASCII letters. -/
structure SameName (name deName : List UInt8) : Prop where
  length : deName.length = name.length
  letters : lowered deName = lowered name

/-- Two names that agree in this way up to the end of the shorter one. -/
def Agree (name deName : List UInt8) : Prop := lowered name <+: lowered deName ∨ lowered deName <+: lowered name

instance (name deName : List UInt8) : Decidable (Agree name deName) := inferInstanceAs (Decidable (_ ∨ _))

/-- The name that a standard entry without long-name entries decodes to. -/
def decodedName (ent : List UInt8) : List UInt8 := cString (direntInfo emptyName ent).name

section Compare

variable {name deName : List UInt8}

theorem toLower_different {a b : UInt8} (different : toLower a ≠ toLower b) :
    (toLower a).toInt8 > (toLower b).toInt8 ∨ (toLower a).toInt8 < (toLower b).toInt8 := by
  have values : (toLower a).toInt8.toInt ≠ (toLower b).toInt8.toInt := fun same =>
    different (congrArg Int8.toUInt8 (Int8.toInt_inj.mp same))
  simp only [gt_iff_lt, Int8.lt_iff_toInt_lt]
  omega

theorem direntDiff_cons {a b : UInt8} (first : a ≠ 0) (second : b ≠ 0) :
    direntDiff (a :: name) (b :: deName) = 0 ↔ toLower a = toLower b ∧ direntDiff name deName = 0 := by
  have ended : ¬(a = 0 ∨ b = 0) := fun either => either.elim first second
  rw [direntDiff, if_neg ended]
  by_cases same : toLower a = toLower b
  · have notGreater : ¬(toLower a).toInt8 > (toLower b).toInt8 := by simp [same]
    have notLess : ¬(toLower a).toInt8 < (toLower b).toInt8 := by simp [same]
    rw [if_neg notGreater, if_neg notLess, and_iff_right same]
  · have differs : ¬(toLower a = toLower b ∧ direntDiff name deName = 0) := fun both => same both.1
    refine iff_of_false ?_ differs
    by_cases greater : (toLower a).toInt8 > (toLower b).toInt8
    · rw [if_pos greater]
      decide
    · rw [if_neg greater, if_pos ((toLower_different same).resolve_left greater)]
      decide

theorem agree_cons {a b : UInt8} : Agree (a :: name) (b :: deName) ↔ toLower a = toLower b ∧ Agree name deName := by
  simp only [Agree, lowered, List.map_cons, List.cons_prefix_cons, eq_comm (a := toLower b), ← and_or_left]

theorem direntDiff_zero_iff (characters : ∀ ch ∈ name, ch ≠ 0) :
    direntDiff name deName = 0 ↔ Agree name (cString deName) := by
  induction name generalizing deName with
  | nil => exact iff_of_true rfl (Or.inl List.nil_prefix)
  | cons a name ih =>
      obtain ⟨first, rest⟩ := List.forall_mem_cons.mp characters
      cases deName with
      | nil => exact iff_of_true rfl (Or.inr List.nil_prefix)
      | cons b deName =>
          by_cases ended : b = 0
          · have empty : cString (b :: deName) = [] := by simp [cString, ended]
            rw [empty]
            exact iff_of_true (by rw [direntDiff, if_pos (Or.inr ended)]) (Or.inr List.nil_prefix)
          · have longer : cString (b :: deName) = b :: cString deName := by simp [cString, ended]
            rw [longer, agree_cons, direntDiff_cons first ended, ih rest]

theorem SameName.agree (same : SameName name deName) : Agree name deName := by
  unfold Agree
  rw [same.letters]
  exact Or.inl (List.prefix_refl _)

/-- Names that agree are the same when neither is longer. -/
theorem Agree.sameName_iff (agree : Agree name deName) : SameName name deName ↔ deName.length = name.length := by
  refine ⟨SameName.length, fun length => ⟨length, ?_⟩⟩
  have lengths : (lowered deName).length = (lowered name).length := by
    rw [lowered, lowered, List.length_map, List.length_map, length]
  cases agree with
  | inl shorter => exact (shorter.eq_of_length lengths.symm).symm
  | inr shorter => exact shorter.eq_of_length lengths

end Compare

def ShortEnt (ent : List UInt8) : Prop := byteAt ent 0 ≠ 0 → byteAt ent 0 ≠ 0xe5 → direntAttr ent ≠ fdaLfn

instance : DecidablePred ShortEnt := fun _ => inferInstanceAs (Decidable (_ → _))

/-- No entry before the end of the directory is a long-name entry. -/
def ShortDirectory (contents : Nat → List UInt8) (pos count : Nat) : Prop :=
  ∀ index < count, (∀ earlier < index, ¬EndsDirectory (entAt contents (pos + 32 * earlier))) →
    ShortEnt (entAt contents (pos + 32 * index))

section Directory

variable {contents : Nat → List UInt8} {nblk start pos count : Nat} {name : List UInt8} {logical : LogicalEnt}

theorem ShortDirectory.met (short : ShortDirectory contents pos count) : OrdersMet contents pos count name := by
  intro index bound notEnd _ used long
  by_cases ends : byteAt (entAt contents (pos + 32 * index)) 0 = 0
  · exact Nat.le_trans (Nat.le_of_eq ends) (by decide)
  · exact absurd long (short index bound notEnd ends used)

theorem ShortDirectory.of_end {last : Nat} (ends : EndsDirectory (entAt contents (pos + 32 * last)))
    (shorts : ∀ index < last, ShortEnt (entAt contents (pos + 32 * index))) : ShortDirectory contents pos count :=
  fun _ _ notEnd => before_end ends shorts (fun _ ended used => absurd ended used) notEnd

theorem ShortDirectory.tail (short : ShortDirectory contents pos (count + 1))
    (notEnd : ¬EndsDirectory (entAt contents pos)) : ShortDirectory contents (pos + 32) count := by
  intro index bound earlier
  have shift : ∀ k, pos + 32 + 32 * k = pos + 32 * (k + 1) := fun k => by omega
  rw [shift]
  refine short (index + 1) (Nat.succ_lt_succ bound) (Nat.forall_lt_succ_left.mpr ⟨notEnd, fun k before => ?_⟩)
  exact shift k ▸ earlier k before

/-- In a directory of 8.3 entries, each standard entry is decoded by itself. -/
theorem logicalEnts_decoded (short : ShortDirectory contents pos count) :
    ∀ logical ∈ logicalEnts start emptyName pos (entsFrom contents pos count),
      logical.dirent.info = direntInfo emptyName (entAt contents logical.dirent.pos) := by
  induction count generalizing start pos with
  | zero => exact fun logical member => absurd member List.not_mem_nil
  | succ count ih =>
      intro logical member
      rw [entsFrom, logicalEnts_cons] at member
      split at member
      · cases member
      · next notEnd =>
          split at member
          · exact ih (short.tail notEnd) logical member
          · next used =>
              have standard : ¬direntAttr (entAt contents pos) = fdaLfn :=
                short 0 (Nat.succ_pos _) (fun _ before => absurd before (Nat.not_lt_zero _)) notEnd used
              rw [if_neg standard] at member
              cases member with
              | head => rfl
              | tail _ later => exact ih (short.tail notEnd) logical later

/-- A live entry at `q` has the name. -/
def SameNameAt (contents : Nat → List UInt8) (nblk pos : Nat) (name : List UInt8) (q : Nat) : Prop :=
  StandardAt contents nblk pos q ∧ SameName name (decodedName (entAt contents q))

/-- The decoded name of a live entry at `q` agrees with the name up to the end of the shorter one. -/
def AgreesAt (contents : Nat → List UInt8) (nblk pos : Nat) (name : List UInt8) (q : Nat) : Prop :=
  StandardAt contents nblk pos q ∧ Agree name (decodedName (entAt contents q))

/-- A position is returned only if the first standard entry there or behind has the name,
and 0 only if no live entry has it. -/
structure FindsExactly (contents : Nat → List UInt8) (nblk pos : Nat) (name : List UInt8) (ret : Nat) : Prop where
  found : ret ≠ 0 → ∃ q, ret ≤ q ∧ (∀ between, ret ≤ between → between < q → ¬StandardAt contents nblk pos between) ∧
    SameNameAt contents nblk pos name q
  absent : ret = 0 → ∀ q, ¬SameNameAt contents nblk pos name q

/-- Nothing but unused entries lies between the start of the device and `q`. -/
def AtStart (contents : Nat → List UInt8) (nblk pos q : Nat) : Prop :=
  pos = 0 ∧ ∀ earlier < q, ¬StandardAt contents nblk pos earlier

/-- The first entry whose name agrees has a name of the same length.  A match at the very
start of the device is taken for a failure, and so no entry may have the name there. -/
def FirstAgreesExactly (contents : Nat → List UInt8) (nblk pos : Nat) (name : List UInt8) : Prop :=
  ∀ q, AgreesAt contents nblk pos name q → (∀ earlier < q, ¬AgreesAt contents nblk pos name earlier) →
    (AtStart contents nblk pos q → ∀ other, ¬SameNameAt contents nblk pos name other) ∧
      (¬AtStart contents nblk pos q → (decodedName (entAt contents q)).length = name.length)

theorem namedAt_iff (short : ShortDirectory contents pos ((nblk * 512 - pos) / 32)) (characters : ∀ ch ∈ name, ch ≠ 0)
    {q : Nat} : NamedAt contents nblk pos name q ↔ AgreesAt contents nblk pos name q := by
  have agrees : ∀ logical ∈ listing contents nblk pos,
      (Named name logical ↔ Agree name (decodedName (entAt contents logical.dirent.pos))) := by
    intro logical member
    rw [Named, direntDiff_zero_iff characters, logicalEnts_decoded short logical member, decodedName]
  rw [NamedAt, AgreesAt, standardAt_iff]
  constructor
  · intro here
    obtain ⟨logical, member, rfl, named⟩ := here
    exact ⟨⟨logical, member, rfl⟩, (agrees logical member).mp named⟩
  · intro here
    obtain ⟨⟨logical, member, rfl⟩, agree⟩ := here
    exact ⟨logical, member, rfl, (agrees logical member).mpr agree⟩

/-- The first logical entry of a directory starts where the directory does, each other one behind. -/
theorem listing_start (member : logical ∈ listing contents nblk pos) :
    logical.start = 0 ↔ AtStart contents nblk pos logical.dirent.pos := by
  have bounds := logicalEnts_bounds (Nat.le_refl pos) logical member
  constructor
  · intro start
    refine ⟨by omega, fun earlier before standard => ?_⟩
    obtain ⟨other, member', rfl⟩ := standardAt_iff.mp standard
    have := listing_gap member member' before
    omega
  · intro atStart
    obtain ⟨rfl, none⟩ := atStart
    cases listed : listing contents nblk 0 with
    | nil =>
        rw [listed] at member
        cases member
    | cons head rest =>
        have ascending := listing_ascending contents nblk 0
        have first := (logicalEnts_split listed).1
        rw [listed] at member ascending
        cases member with
        | head => exact first
        | tail _ later =>
            have before := (List.pairwise_cons.mp ascending).1 logical later
            exact absurd (standardAt_iff.mpr ⟨head, by simp [listed], rfl⟩) (none _ before)

theorem SameNameAt.agrees {q : Nat} (same : SameNameAt contents nblk pos name q) :
    AgreesAt contents nblk pos name q :=
  ⟨same.1, same.2.agree⟩

/-- There is at most one first position. -/
theorem first_unique {holds : Nat → Prop} {left right : Nat} (here : holds left)
    (noneHere : ∀ earlier < left, ¬holds earlier) (there : holds right)
    (noneThere : ∀ earlier < right, ¬holds earlier) : left = right := by
  apply Nat.le_antisymm
  · exact Nat.le_of_not_lt fun before => noneHere right before there
  · exact Nat.le_of_not_lt fun before => noneThere left before here

theorem firstAgreesExactly_at {q : Nat} (agrees : AgreesAt contents nblk pos name q)
    (earliest : ∀ earlier < q, ¬AgreesAt contents nblk pos name earlier) :
    FirstAgreesExactly contents nblk pos name ↔
      (AtStart contents nblk pos q → ∀ other, ¬SameNameAt contents nblk pos name other) ∧
        (¬AtStart contents nblk pos q → (decodedName (entAt contents q)).length = name.length) := by
  constructor
  · intro exactly
    exact exactly q agrees earliest
  · intro exactly other there noneBefore
    obtain rfl := first_unique there noneBefore agrees earliest
    exact exactly

/-- Between the start of a logical entry and its standard entry there is no other. -/
theorem listing_noStandard {logical : LogicalEnt} (member : logical ∈ listing contents nblk pos) (between : Nat)
    (lower : logical.start ≤ between) (upper : between < logical.dirent.pos) :
    ¬StandardAt contents nblk pos between := by
  intro standard
  obtain ⟨other, member', rfl⟩ := standardAt_iff.mp standard
  exact Nat.not_lt_of_le lower (listing_gap member member' upper)

/-- So the first standard entry from its start on is its own. -/
theorem listing_reached {logical : LogicalEnt} {q : Nat} (member : logical ∈ listing contents nblk pos)
    (own : logical.start ≤ logical.dirent.pos ∧ StandardAt contents nblk pos logical.dirent.pos)
    (lower : logical.start ≤ q) (standard : StandardAt contents nblk pos q)
    (none : ∀ between, logical.start ≤ between → between < q → ¬StandardAt contents nblk pos between) :
    q = logical.dirent.pos :=
  @first_unique (fun q => logical.start ≤ q ∧ StandardAt contents nblk pos q) q logical.dirent.pos
    ⟨lower, standard⟩ (fun between before here => none between here.1 before here.2) own
    fun between before here => listing_noStandard member between here.1 before here.2

/-- What a search returns is exact when the first entry that it takes for the name is. -/
theorem firstNamed_exact_iff (short : ShortDirectory contents pos ((nblk * 512 - pos) / 32))
    (characters : ∀ ch ∈ name, ch ≠ 0) : FindsExactly contents nblk pos name
        (((firstNamed name (listing contents nblk pos)).map LogicalEnt.start).getD 0) ↔
      FirstAgreesExactly contents nblk pos name := by
  have named : ∀ q, NamedAt contents nblk pos name q ↔ AgreesAt contents nblk pos name q := fun q =>
    namedAt_iff short characters
  cases first : firstNamed name (listing contents nblk pos) with
  | none =>
      have nowhere : ∀ q, ¬AgreesAt contents nblk pos name q := fun q agrees => by
        obtain ⟨logical, member, _, here⟩ := (named q).mpr agrees
        exact absurd (decide_eq_true here) (List.find?_eq_none.mp first logical member)
      exact iff_of_true ⟨fun found => absurd rfl found, fun _ q same => nowhere q same.agrees⟩
        fun q agrees => absurd agrees (nowhere q)
  | some logical =>
      obtain ⟨member, here, least⟩ := firstNamed_least (listing_ascending contents nblk pos) first
      have bounds := logicalEnts_bounds (Nat.le_refl pos) logical member
      have agrees : AgreesAt contents nblk pos name logical.dirent.pos := (named _).mp ⟨logical, member, rfl, here⟩
      have earliest : ∀ earlier < logical.dirent.pos, ¬AgreesAt contents nblk pos name earlier := by
        intro earlier before other
        obtain ⟨entry, member', rfl, named'⟩ := (named earlier).mpr other
        exact absurd (least entry member' named') (Nat.not_le_of_lt before)
      rw [firstAgreesExactly_at agrees earliest, ← listing_start member, Option.map_some, Option.getD_some]
      constructor
      · intro finds
        refine ⟨finds.absent, fun nonzero => ?_⟩
        obtain ⟨q, lower, none, same⟩ := finds.found nonzero
        obtain rfl := listing_reached member ⟨bounds.2.1, agrees.1⟩ lower same.1 none
        exact same.2.length
      · intro exactly
        obtain ⟨absent, length⟩ := exactly
        refine ⟨fun nonzero => ⟨_, bounds.2.1, listing_noStandard member, agrees.1, ?_⟩, absent⟩
        exact agrees.2.sameName_iff.mpr (length nonzero)

/-- On a volume that delivers its blocks, after every history of the cache, a search of a
directory of 8.3 entries ends, and its result is exact when the first entry that agrees is. -/
theorem fat_find_dirent_exact_iff {World : Type} (platform : Platform World) (dev : Blkdev World)
    (contents : Nat → List UInt8) (volume : Volume dev contents) (s : FatState World)
    (reached : (blkCacheSystem platform dev).Reachable s.driver.blkCache) (allocated : s.driver.blkCache.buf ≠ none)
    (pos : Nat) (aligned : pos % 32 = 0) (inside : pos < dev.nblk * 512)
    (short : ShortDirectory contents pos ((dev.nblk * 512 - pos) / 32)) (name : List UInt8)
    (characters : ∀ ch ∈ name, ch ≠ 0) (fuel : Nat) (enough : (dev.nblk * 512 - pos) / 32 < fuel) :
    ∃ result, fatFindDirent platform fuel s pos name = .ok result ∧
      (FindsExactly contents dev.nblk pos name result.ret ↔ FirstAgreesExactly contents dev.nblk pos name) := by
  have coherent := blkCache_reachable_coherent reached volume.delivers allocated volume.nblk_lt
  obtain ⟨state, found, _⟩ := fatFindDirent_spec platform volume aligned inside coherent short.met enough
  exact ⟨_, found, firstNamed_exact_iff short characters⟩

end Directory

theorem smallDir_end : EndsDirectory (entAt smallContents (2048 + 32 * 1)) := by decide +kernel

theorem smallDir_short (count : Nat) : ShortDirectory smallContents 2048 count :=
  ShortDirectory.of_end smallDir_end (by decide +kernel)

theorem smallDir_standardAt {q : Nat} : StandardAt smallContents 4100 2048 q ↔ q = 2048 := by
  constructor
  · intro here
    obtain ⟨index, rfl, _, standard, notEnd⟩ := here
    rcases Nat.lt_trichotomy index 1 with before | rfl | behind
    · omega
    · exact absurd smallDir_end standard.1
    · exact absurd smallDir_end (notEnd 1 behind)
  · intro first
    subst first
    refine ⟨0, rfl, by decide, ?_, fun earlier before => absurd before (Nat.not_lt_zero _)⟩
    exact ⟨by decide +kernel, by decide +kernel, by decide +kernel⟩

theorem smallDir_decoded : decodedName (entAt smallContents 2048) = [0x42, 0x2e, 0x54, 0x58, 0x54] := by
  decide +kernel

/-- In a directory of one file, a search is exact when the name, if it agrees, is as long. -/
theorem smallDir_exact_iff {name : List UInt8} : FirstAgreesExactly smallContents 4100 2048 name ↔
    (Agree name [0x42, 0x2e, 0x54, 0x58, 0x54] → name.length = 5) := by
  have behind : ¬AtStart smallContents 4100 2048 2048 := fun start => absurd start.1 (by decide)
  constructor
  · intro exact_ agree
    have agrees : AgreesAt smallContents 4100 2048 name 2048 :=
      ⟨smallDir_standardAt.mpr rfl, smallDir_decoded.symm ▸ agree⟩
    have alone : ∀ earlier < 2048, ¬AgreesAt smallContents 4100 2048 name earlier := fun earlier before other =>
      absurd (smallDir_standardAt.mp other.1) (Nat.ne_of_lt before)
    have length := (exact_ 2048 agrees alone).2 behind
    rw [smallDir_decoded] at length
    exact length.symm
  · intro length q agrees _
    obtain rfl := smallDir_standardAt.mp agrees.1
    have agree := agrees.2
    rw [smallDir_decoded] at agree ⊢
    exact ⟨fun start => absurd start behind, fun _ => (length agree).symm⟩

theorem fat_find_dirent_exact_iff_small :
    ∃ result, fatFindDirent .zeroed 65569 { driver := smallDriver, world := () } 2048 [0x62, 0x2e, 0x74, 0x78, 0x74] =
        .ok result ∧
      FindsExactly smallContents 4100 2048 [0x62, 0x2e, 0x74, 0x78, 0x74] result.ret := by
  obtain ⟨result, found, exact_⟩ := fat_find_dirent_exact_iff .zeroed smallDisk smallContents smallDisk_volume
    { driver := smallDriver, world := () } (.initial ⟨(), rfl⟩)
    smallDriver_allocated 2048 (by decide) (by decide)
    (smallDir_short _) [0x62, 0x2e, 0x74, 0x78, 0x74] (by simp) 65569 (by decide)
  exact ⟨result, found, exact_.mpr (smallDir_exact_iff.mpr fun _ => rfl)⟩

/-- A search for the first letter of the file finds the file. -/
theorem fat_find_dirent_prefix :
    ∃ result, fatFindDirent .zeroed 65569 { driver := smallDriver, world := () } 2048 [0x62] = .ok result ∧
      result.ret = 2048 ∧ ¬FindsExactly smallContents 4100 2048 [0x62] result.ret := by
  have reached : (blkCacheSystem .zeroed smallDisk).Reachable smallDriver.blkCache := .initial ⟨(), rfl⟩
  have coherent := blkCache_reachable_coherent reached smallDisk_volume.delivers
    smallDriver_allocated (by decide)
  have met : OrdersMet smallContents 2048 ((smallDisk.nblk * 512 - 2048) / 32) [0x62] := (smallDir_short _).met
  have enough : (smallDisk.nblk * 512 - 2048) / 32 < 65569 := by decide
  obtain ⟨state, found, _⟩ := fatFindDirent_spec (s := { driver := smallDriver, world := () }) .zeroed
    smallDisk_volume (by decide) (by decide) coherent met enough
  have nblk : smallDisk.nblk = 4100 := rfl
  have ret : ((firstNamed [0x62] (listing smallContents 4100 2048)).map LogicalEnt.start).getD 0 = 2048 := by
    rw [listing, logicalEnts_upTo (show 1 < _ by decide) smallDir_end]
    decide +kernel
  have exact_ : FindsExactly smallContents 4100 2048 [0x62]
        (((firstNamed [0x62] (listing smallContents 4100 2048)).map LogicalEnt.start).getD 0) ↔
      FirstAgreesExactly smallContents 4100 2048 [0x62] :=
    firstNamed_exact_iff (smallDir_short _) (by simp)
  rw [ret] at exact_
  rw [nblk, ret] at found
  refine ⟨_, found, rfl, fun finds => ?_⟩
  exact absurd (smallDir_exact_iff.mp (exact_.mp finds) (by decide)) (by decide)

end Bwuhos
