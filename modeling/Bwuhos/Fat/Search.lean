import Bwuhos.Fat.Walk

namespace Bwuhos

open Bwuhos.Data

/-! # What a search finds

`fat_find_dirent` in terms of positions on the device.
-/

/-- A search for a name compares it with the standard entries of the directory, in order
and up to the first one that has the name; it returns a position from which that entry
is the first one, and 0 where there is none. -/
structure FindsFirst {World : Type} (contents : Nat → List UInt8) (nblk pos : Nat) (name : List UInt8)
    (result : FindResult World) : Prop where
  ordered : (result.examined.map DirentAt.pos).Pairwise (· < ·)
  exact : ∀ q, q ∈ result.examined.map DirentAt.pos ↔
    StandardAt contents nblk pos q ∧ ∀ earlier < q, ¬NamedAt contents nblk pos name earlier
  absent : (∀ q, ¬NamedAt contents nblk pos name q) → result.ret = 0
  first : ∀ q, NamedAt contents nblk pos name q → (∀ earlier < q, ¬NamedAt contents nblk pos name earlier) →
    pos ≤ result.ret ∧ result.ret ≤ q ∧
      ∀ between, result.ret ≤ between → between < q → ¬StandardAt contents nblk pos between

section

variable {World : Type} {contents : Nat → List UInt8} {nblk pos : Nat} {name : List UInt8} {state : FatState World}
  {ents : List LogicalEnt} {logical other : LogicalEnt}

theorem upToNamed_sublist (name : List UInt8) (ents : List LogicalEnt) : (upToNamed name ents).Sublist ents := by
  induction ents with
  | nil => exact .slnil
  | cons head rest ih =>
      by_cases named : Named name head
      · rw [upToNamed_here named]
        exact (List.nil_sublist rest).cons_cons head
      · rw [upToNamed_later named]
        exact ih.cons_cons head

/-- In ascending order, the entries up to the first one with the name are those before
which none has it. -/
theorem mem_upToNamed_iff (ascending : ents.Pairwise fun left right => left.dirent.pos < right.dirent.pos) :
    logical ∈ upToNamed name ents ↔
      logical ∈ ents ∧ ∀ earlier ∈ ents, earlier.dirent.pos < logical.dirent.pos → ¬Named name earlier := by
  induction ents with
  | nil => exact iff_of_false List.not_mem_nil fun here => List.not_mem_nil here.1
  | cons head rest ih =>
      obtain ⟨ahead, later⟩ := List.pairwise_cons.mp ascending
      by_cases named : Named name head
      · rw [upToNamed_here named, List.mem_singleton]
        constructor
        · rintro rfl
          refine ⟨List.mem_cons_self .., fun earlier member before => absurd before ?_⟩
          rcases List.mem_cons.mp member with rfl | behind
          · exact Nat.lt_irrefl _
          · exact Nat.lt_asymm (ahead earlier behind)
        · rintro ⟨member, none⟩
          rcases List.mem_cons.mp member with rfl | behind
          · rfl
          · exact absurd named (none head (List.mem_cons_self ..) (ahead logical behind))
      · rw [upToNamed_later named, List.mem_cons, ih later, List.mem_cons]
        constructor
        · rintro (rfl | ⟨member, none⟩)
          · refine ⟨Or.inl rfl, fun earlier member before => ?_⟩
            rcases List.mem_cons.mp member with rfl | behind
            · exact named
            · exact absurd before (Nat.lt_asymm (ahead earlier behind))
          · exact ⟨Or.inr member, List.forall_mem_cons.mpr ⟨fun _ => named, none⟩⟩
        · rintro ⟨rfl | member, none⟩
          · exact Or.inl rfl
          · exact Or.inr ⟨member, (List.forall_mem_cons.mp none).2⟩

theorem firstNamed_least (ascending : ents.Pairwise fun left right => left.dirent.pos < right.dirent.pos)
    (first : firstNamed name ents = some logical) :
    logical ∈ ents ∧ Named name logical ∧ ∀ other ∈ ents, Named name other →
      logical.dirent.pos ≤ other.dirent.pos := by
  obtain ⟨named, before, after, rfl, others⟩ := List.find?_eq_some_iff_append.mp first
  refine ⟨by simp, of_decide_eq_true named, fun other member named' => ?_⟩
  have behind := (List.pairwise_cons.mp (List.pairwise_append.mp ascending).2.1).1
  rcases List.mem_append.mp member with sooner | member'
  · have different := others other sooner
    simp [named'] at different
  · rcases List.mem_cons.mp member' with rfl | later
    · exact Nat.le_refl _
    · exact Nat.le_of_lt (behind other later)

/-- Between the start of a logical entry and its standard entry lies no other standard entry. -/
theorem listing_gap (member : logical ∈ listing contents nblk pos) (member' : other ∈ listing contents nblk pos)
    (before : other.dirent.pos < logical.dirent.pos) : other.dirent.pos < logical.start := by
  have sorted : (listing contents nblk pos).Pairwise fun left right => left.dirent.pos < right.start :=
    logicalEnts_sorted (Nat.le_refl pos)
  have bounds : ∀ entry ∈ listing contents nblk pos, entry.start ≤ entry.dirent.pos := fun entry here =>
    (logicalEnts_bounds (Nat.le_refl pos) entry here).2.1
  generalize listing contents nblk pos = ents at member member' sorted bounds
  induction ents with
  | nil => cases member
  | cons head rest ih =>
      obtain ⟨ahead, later⟩ := List.pairwise_cons.mp sorted
      rcases List.mem_cons.mp member with rfl | here <;> rcases List.mem_cons.mp member' with rfl | here'
      · exact absurd before (Nat.lt_irrefl _)
      · have := ahead other here'
        have := bounds other member'
        omega
      · exact ahead logical here
      · exact ih here here' later fun entry inside => bounds entry (List.mem_cons_of_mem _ inside)

theorem listing_ascending (contents : Nat → List UInt8) (nblk pos : Nat) :
    (listing contents nblk pos).Pairwise fun left right => left.dirent.pos < right.dirent.pos :=
  List.Pairwise.imp_of_mem
    (fun {_ right} _ member before =>
      Nat.lt_of_lt_of_le before (logicalEnts_bounds (Nat.le_refl pos) right member).2.1)
    (logicalEnts_sorted (Nat.le_refl pos))

/-- The listing of a directory answers a search for a name. -/
theorem firstNamed_findsFirst : FindsFirst contents nblk pos name {
    ret := ((firstNamed name (listing contents nblk pos)).map LogicalEnt.start).getD 0
    examined := (upToNamed name (listing contents nblk pos)).map LogicalEnt.dirent, state } := by
  have ascending := listing_ascending contents nblk pos
  refine ⟨?_, fun q => ?_, fun absent => ?_, fun q namedAt none => ?_⟩
  · rw [List.map_map, List.pairwise_map]
    exact ascending.sublist (upToNamed_sublist name _)
  · rw [List.map_map, List.mem_map, standardAt_iff]
    constructor
    · rintro ⟨logical, member, rfl⟩
      obtain ⟨member, none⟩ := (mem_upToNamed_iff ascending).mp member
      refine ⟨⟨logical, member, rfl⟩, ?_⟩
      rintro earlier before ⟨other, member', rfl, named⟩
      exact none other member' before named
    · rintro ⟨⟨logical, member, rfl⟩, none⟩
      refine ⟨logical, (mem_upToNamed_iff ascending).mpr ⟨member, fun earlier member' before named => ?_⟩, rfl⟩
      exact none _ before ⟨earlier, member', rfl, named⟩
  · have nothing : firstNamed name (listing contents nblk pos) = Option.none :=
      List.find?_eq_none.mpr fun logical member named => absent _ ⟨logical, member, rfl, of_decide_eq_true named⟩
    rw [nothing]
    rfl
  · obtain ⟨logical, member, rfl, named⟩ := namedAt
    cases first : firstNamed name (listing contents nblk pos) with
    | none => exact absurd (decide_eq_true named) (List.find?_eq_none.mp first logical member)
    | some found =>
        obtain ⟨inside, here, least⟩ := firstNamed_least ascending first
        have bounds := logicalEnts_bounds (Nat.le_refl pos) found inside
        have same : found.dirent.pos = logical.dirent.pos := by
          have lower := least logical member named
          by_contra different
          exact none found.dirent.pos (by omega) ⟨found, inside, rfl, here⟩
        refine ⟨bounds.1, same ▸ bounds.2.1, fun between lower upper standard => ?_⟩
        obtain ⟨other, member', rfl⟩ := standardAt_iff.mp standard
        exact Nat.not_lt_of_le lower (listing_gap inside member' (same ▸ upper))

/-- On a volume that delivers its blocks, after every history of the cache, a search for a
name ends and finds the first entry of that name. -/
theorem fatFindDirent_finds_first (platform : Platform World) (dev : Blkdev World) (contents : Nat → List UInt8)
    (volume : Volume dev contents) (s : FatState World)
    (reached : (blkCacheSystem platform dev).Reachable s.driver.blkCache) (allocated : s.driver.blkCache.buf ≠ none)
    (pos : Nat) (aligned : pos % 32 = 0) (inside : pos < dev.nblk * 512) (name : List UInt8)
    (met : OrdersMet contents pos ((dev.nblk * 512 - pos) / 32) name) (fuel : Nat)
    (enough : (dev.nblk * 512 - pos) / 32 < fuel) :
    ∃ result, fatFindDirent platform fuel s pos name = .ok result ∧ FindsFirst contents dev.nblk pos name result := by
  have coherent := blkCache_reachable_coherent reached volume.delivers allocated volume.nblk_lt
  obtain ⟨state, found, _⟩ := fatFindDirent_spec platform volume aligned inside coherent met enough
  exact ⟨_, found, firstNamed_findsFirst⟩

end

def padBlock (bytes : List UInt8) : List UInt8 := bytes ++ List.replicate (512 - bytes.length) 0

theorem padBlock_length {bytes : List UInt8} (short : bytes.length ≤ 512) : (padBlock bytes).length = 512 := by
  rw [padBlock, List.length_append, List.length_replicate]
  omega

def stdEnt (name : List UInt8) (attr cluster size : UInt8) : List UInt8 :=
  name ++ [attr] ++ List.replicate 14 0 ++ [cluster, 0, size, 0, 0, 0]

/-- 4100 sectors: one reserved sector, one FAT of one sector, a root directory of one
sector, clusters of one sector. -/
def smallBoot : List UInt8 :=
  List.replicate 11 0 ++ [0, 2, 1, 1, 0, 1, 16, 0, 4, 16, 0, 1, 0] ++ List.replicate 486 0 ++ [0x55, 0xaa]

theorem smallBoot_length : smallBoot.length = 512 := by
  simp only [smallBoot, List.length_append, List.length_replicate, List.length_cons, List.length_nil]

def smallRoot : List UInt8 :=
  [1] ++ List.replicate 10 0x41 ++ [0x0f] ++ List.replicate 20 0 ++
    stdEnt [0x44, 0x20, 0x20, 0x20, 0x20, 0x20, 0x20, 0x20, 0x20, 0x20, 0x20] 0x10 3 0 ++
      stdEnt [0x41, 0x20, 0x20, 0x20, 0x20, 0x20, 0x20, 0x20, 0x54, 0x58, 0x54] 0x20 2 5

def smallDir : List UInt8 := stdEnt [0x42, 0x20, 0x20, 0x20, 0x20, 0x20, 0x20, 0x20, 0x54, 0x58, 0x54] 0x20 4 7

def smallContents : Nat → List UInt8
  | 0 => smallBoot
  | 2 => padBlock smallRoot
  | 4 => padBlock smallDir
  | _ => List.replicate 512 0

def smallDisk : Blkdev Unit := memoryDisk smallContents 4100

def smallDriver : FatDriver Unit where
  blkCache := (blkCacheCreate .zeroed smallDisk ()).1
  fileDescs := Vector.replicate fatMaxFileDescs .zero
  sectorSize := 512
  clusterSize := 1
  firstDataSector := 3
  sectorCnt := 4100
  rootSectorCnt := 1
  dataSectorCnt := 4097
  clusterCnt := 4097

theorem smallDriver_allocated : smallDriver.blkCache.buf ≠ none := by
  simp [smallDriver, blkCacheCreate, Platform.alloc, Platform.zeroed]

theorem smallContents_sized (blk : Nat) : (smallContents blk).length = 512 := by
  unfold smallContents
  split
  · exact smallBoot_length
  · exact padBlock_length (by decide)
  · exact padBlock_length (by decide)
  · exact List.length_replicate

theorem smallDisk_volume : Volume smallDisk smallContents :=
  ⟨memoryDisk_delivers smallContents_sized 4100, rfl, by decide⟩

theorem smallRoot_met (count : Nat) (name : List UInt8) : OrdersMet smallContents 1024 count name :=
  OrdersMet.of_end (show EndsDirectory (entAt smallContents (1024 + 32 * 3)) by decide +kernel) (by decide +kernel)

theorem fatFindDirent_finds_first_small :
    ∃ result, fatFindDirent .zeroed 65569 { driver := smallDriver, world := () } 1024 [0x61, 0x2e, 0x74, 0x78, 0x74] =
        .ok result ∧
      FindsFirst smallContents 4100 1024 [0x61, 0x2e, 0x74, 0x78, 0x74] result :=
  fatFindDirent_finds_first .zeroed smallDisk smallContents smallDisk_volume { driver := smallDriver, world := () }
    (.initial ⟨(), rfl⟩) smallDriver_allocated 1024 (by decide)
    (by decide) _ (smallRoot_met _ _) 65569 (by decide)

end Bwuhos
