import Bwuhos.Blkdev.Ranges
import Bwuhos.Fat.Verify
import Bwuhos.Mbr

namespace Bwuhos

open Bwuhos.Data

/-! # The partitions of a set of disks

What `mbr_find` makes of disks whose contents do not change.
-/

/-- Blocks of a disk, known by its place among the registered devices. -/
structure DiskRange where
  disk : Nat
  base : Nat
  nblk : Nat
deriving Repr, DecidableEq

def DiskRange.Covers (range : DiskRange) (blk : Nat) : Prop := range.base ≤ blk ∧ blk < range.base + range.nblk

def DiskRange.Disjoint (left right : DiskRange) : Prop :=
  left.disk = right.disk → ∀ blk, ¬(left.Covers blk ∧ right.Covers blk)

/-- A registered disk without partitions, and what its blocks hold. -/
structure DiskNode {World : Type} (node : BlkNode World) (contents : Nat → List UInt8) : Prop where
  devType : node.dev.devType = .diskDrive
  whole : node.dev.flags &&& bfPart = 0
  base : node.dev.partBase = 0
  bounded : node.dev.nblk < 2 ^ 64
  unparted : node.children.getD [] = []
  delivers : Delivers node.dev contents

/-- The partition for an entry of the MBR, if there is one. -/
def entRange (disk nblk : Nat) (mbr : List UInt8) (ent : Nat) : Option DiskRange :=
  if mbrEntType mbr ent = 0 ∨ nblk < mbrEntStartLba mbr ent + mbrEntNsector mbr ent then none
  else some { disk, base := mbrEntStartLba mbr ent, nblk := mbrEntNsector mbr ent }

/-- The partitions that the first block of a disk describes.  Only blocks of 512 bytes are supported. -/
def mbrRanges (disk blkSize nblk : Nat) (mbr : List UInt8) : List DiskRange :=
  if blkSize ≠ 512 ∨ nblk = 0 ∨ mbrVerify mbr none ≠ 0 then [] else (List.range 4).filterMap (entRange disk nblk mbr)

/-- A disk and its partitions, in their order. -/
def diskRanges {World : Type} (contents : Nat → Nat → List UInt8) (disk : Nat) (node : BlkNode World) :
    List DiskRange :=
  { disk, base := 0, nblk := node.dev.nblk } ::
    mbrRanges disk node.dev.blkSize node.dev.nblk (contents disk 0)

section

variable {World : Type} {platform : Platform World} {node after : BlkNode World} {contents : Nat → List UInt8}
  {world last : World} {mbr : List UInt8}

/-- The partition that `blkdev_mk_part` makes of a range. -/
def partOf (dev : Blkdev World) (range : DiskRange) : Blkdev World :=
  { dev with partBase := range.base, flags := dev.flags ||| bfPart, nblk := range.nblk }

theorem blkdevMkPart_ent {made : Option (Blkdev World) × BlkNode World} (disk ent : Nat)
    (typed : mbrEntType mbr ent ≠ 0) (whole : node.dev.flags &&& bfPart = 0)
    (room : (node.children.getD []).length < blkdevMaxParts)
    (returned : blkdevMkPart node (mbrEntStartLba mbr ent) (mbrEntNsector mbr ent) = .ok made) :
    made.2.dev = node.dev ∧ made.2.children.getD [] =
      node.children.getD [] ++ ((entRange disk node.dev.nblk mbr ent).map (partOf node.dev)).toList := by
  have start : mbrEntStartLba mbr ent < 2 ^ 32 := le32_lt _ _
  have count : mbrEntNsector mbr ent < 2 ^ 32 := le32_lt _ _
  have sum : u64 (mbrEntStartLba mbr ent + mbrEntNsector mbr ent) = mbrEntStartLba mbr ent + mbrEntNsector mbr ent :=
    u64_of_lt (by omega)
  rw [blkdevMkPart, if_neg (not_not.mpr whole), if_neg (Nat.not_le.mpr room), sum] at returned
  unfold entRange
  by_cases beyond : node.dev.nblk < mbrEntStartLba mbr ent + mbrEntNsector mbr ent
  · rw [if_pos beyond] at returned
    cases returned
    rw [if_pos (Or.inr beyond)]
    exact ⟨rfl, (List.append_nil _).symm⟩
  · rw [if_neg beyond] at returned
    rw [if_neg (not_or.mpr ⟨typed, beyond⟩)]
    split at returned
    · cases returned
    · next children present =>
        cases returned
        rw [present]
        exact ⟨rfl, rfl⟩

theorem mbrPartition_spec (disk : Nat) {ents : List Nat} (whole : node.dev.flags &&& bfPart = 0)
    (room : (node.children.getD []).length + ents.length ≤ blkdevMaxParts)
    (returned : mbrPartition mbr ents node = .ok after) :
    after.dev = node.dev ∧ after.children.getD [] =
      node.children.getD [] ++ (ents.filterMap (entRange disk node.dev.nblk mbr)).map (partOf node.dev) := by
  induction ents generalizing node with
  | nil =>
      cases returned
      exact ⟨rfl, (List.append_nil _).symm⟩
  | cons ent rest ih =>
      rw [List.length_cons] at room
      rw [mbrPartition] at returned
      split at returned
      · next untyped =>
          have skipped : entRange disk node.dev.nblk mbr ent = none := if_pos (Or.inl untyped)
          rw [List.filterMap_cons_none skipped]
          exact ih whole (by omega) returned
      · next typed =>
          obtain ⟨⟨part, next⟩, made, remaining⟩ := bind_eq_ok returned
          obtain ⟨dev, children⟩ := blkdevMkPart_ent disk ent typed whole (by omega) made
          dsimp only at dev children remaining
          have fits : (next.children.getD []).length + rest.length ≤ blkdevMaxParts := by
            rw [children, List.length_append]
            cases entRange disk node.dev.nblk mbr ent <;> simp <;> omega
          obtain ⟨sameDev, parts⟩ := ih (dev ▸ whole) fits remaining
          refine ⟨sameDev.trans dev, ?_⟩
          rw [parts, children, dev, List.append_assoc]
          cases found : entRange disk node.dev.nblk mbr ent with
          | none => rw [List.filterMap_cons_none found]; rfl
          | some range => rw [List.filterMap_cons_some found]; rfl

theorem mbrFindOn_spec (disk : Nat) (diskNode : DiskNode node contents)
    (returned : mbrFindOn platform node world = .ok (after, last)) :
    after.dev = node.dev ∧ after.children.getD [] =
      (mbrRanges disk node.dev.blkSize node.dev.nblk (contents 0)).map (partOf node.dev) := by
  have kept : ∀ {none : Prop} [Decidable none], none →
      node.children.getD [] = (if none then [] else (List.range 4).filterMap
        (entRange disk node.dev.nblk (contents 0))).map (partOf node.dev) := by
    intro none _ holds
    rw [if_pos holds, diskNode.unparted]
    rfl
  unfold mbrRanges
  rw [mbrFindOn, if_neg (not_not.mpr diskNode.devType)] at returned
  by_cases blkSize : node.dev.blkSize = 512
  · rw [if_neg (not_not.mpr blkSize)] at returned
    obtain ⟨⟨ret, mbr, read⟩, boot, rest⟩ := bind_eq_ok returned
    have rejected := readBootSector_ret boot
    dsimp only at rest
    split at rest
    · next failed =>
        cases rest
        exact ⟨rfl, kept (Or.inr (Or.inl (rejected.mp failed)))⟩
    · next succeeded =>
        rw [not_not.mp succeeded] at boot
        obtain rfl := readBootSector_spec diskNode.delivers blkSize diskNode.bounded boot
        have present : node.dev.nblk ≠ 0 := fun empty => succeeded (rejected.mpr empty)
        split at rest
        · next unsigned =>
            cases rest
            exact ⟨rfl, kept (Or.inr (Or.inr unsigned))⟩
        · next signed =>
            obtain ⟨parted, made, finished⟩ := bind_eq_ok rest
            cases finished
            have room : (node.children.getD []).length + (List.range 4).length ≤ blkdevMaxParts := by
              rw [diskNode.unparted, List.length_nil, List.length_range]
              decide
            obtain ⟨dev, parts⟩ := mbrPartition_spec disk diskNode.whole room made
            rw [diskNode.unparted, List.nil_append] at parts
            rw [if_neg (not_or.mpr ⟨not_not.mpr blkSize, not_or.mpr ⟨present, signed⟩⟩)]
            exact ⟨dev, parts⟩
  · rw [if_pos blkSize] at returned
    cases returned
    exact ⟨rfl, kept (Or.inl blkSize)⟩

theorem mbrPartition_returns (mbr : List UInt8) (ents : List Nat) (present : node.children ≠ none) :
    ∃ after, mbrPartition mbr ents node = .ok after := by
  induction ents generalizing node with
  | nil => exact ⟨node, rfl⟩
  | cons ent rest ih =>
      unfold mbrPartition
      split
      · exact ih present
      · obtain ⟨⟨part, next⟩, made⟩ := blkdevMkPart_returns present (mbrEntStartLba mbr ent) (mbrEntNsector mbr ent)
        have kept : next.children ≠ none := fun null => present ((blkdevMkPart_keeps made).2.mp null)
        obtain ⟨after, finished⟩ := ih kept
        exact ⟨after, by rw [made]; exact finished⟩

theorem mbrFindOn_returns (platform : Platform World) (diskNode : DiskNode node contents)
    (present : node.children ≠ none) (world : World) :
    ∃ after last, mbrFindOn platform node world = .ok (after, last) := by
  unfold mbrFindOn
  rw [if_neg (not_not.mpr diskNode.devType)]
  split
  · exact ⟨_, _, rfl⟩
  · next blkSize =>
      obtain ⟨ret, mbr, read, boot⟩ := readBootSector_returns platform diskNode.delivers (not_not.mp blkSize)
        diskNode.bounded world
      obtain ⟨after, made⟩ := mbrPartition_returns mbr (List.range 4) present
      rw [boot]
      simp only [bind, Except.bind]
      split
      · exact ⟨_, _, rfl⟩
      · split
        · exact ⟨_, _, rfl⟩
        · rw [made]
          exact ⟨_, _, rfl⟩

theorem diskNodes_tail {contents : Nat → Nat → List UInt8} {disk : Nat} {node : BlkNode World}
    {rest : List (BlkNode World)}
    (fixed : ∀ index other, (node :: rest)[index]? = some other → DiskNode other (contents (disk + index)))
    (index : Nat) (other : BlkNode World) (there : rest[index]? = some other) :
    DiskNode other (contents (disk + 1 + index)) := by
  have diskNode := fixed (index + 1) other there
  rwa [← Nat.add_assoc, Nat.add_right_comm] at diskNode

theorem mbrFind_returns (platform : Platform World) {contents : Nat → Nat → List UInt8} (disk : Nat)
    {disks : List (BlkNode World)}
    (fixed : ∀ index node, disks[index]? = some node → DiskNode node (contents (disk + index)))
    (present : ∀ node ∈ disks, node.children ≠ none) (world : World) :
    ∃ blkdevs last, mbrFind platform disks world = .ok (blkdevs, last) := by
  induction disks generalizing disk world with
  | nil => exact ⟨[], world, rfl⟩
  | cons node rest ih =>
      obtain ⟨after, read, first⟩ := mbrFindOn_returns platform (fixed 0 node rfl)
        (present node List.mem_cons_self) world
      obtain ⟨others, last, found⟩ := ih (disk + 1) (diskNodes_tail fixed)
        (fun other member => present other (List.mem_cons_of_mem _ member)) read
      exact ⟨after :: others, last, by rw [mbrFind, first]; simp only [bind, Except.bind, found]; rfl⟩

/-- The devices of one disk after `mbr_find`. -/
structure NodeParted (contents : Nat → Nat → List UInt8) (disk : Nat) (node after : BlkNode World) : Prop where
  dev : after.dev = node.dev
  parts : after.children.getD [] =
    (mbrRanges disk node.dev.blkSize node.dev.nblk (contents disk 0)).map (partOf node.dev)

/-- The disks, in their order, with the partitions of each. -/
inductive Parted (contents : Nat → Nat → List UInt8) :
    (disk : Nat) → List (BlkNode World) → List (BlkNode World) → Prop
  | nil (disk : Nat) : Parted contents disk [] []
  | cons {disk : Nat} {node after : BlkNode World} {disks blkdevs : List (BlkNode World)}
      (head : NodeParted contents disk node after) (rest : Parted contents (disk + 1) disks blkdevs) :
        Parted contents disk (node :: disks) (after :: blkdevs)

theorem mbrFind_parted {contents : Nat → Nat → List UInt8} {disk : Nat} {disks blkdevs : List (BlkNode World)}
    (fixed : ∀ index node, disks[index]? = some node → DiskNode node (contents (disk + index)))
    (returned : mbrFind platform disks world = .ok (blkdevs, last)) : Parted contents disk disks blkdevs := by
  induction disks generalizing disk world blkdevs last with
  | nil =>
      cases returned
      exact .nil disk
  | cons node rest ih =>
      obtain ⟨⟨after, read⟩, first, remaining⟩ := bind_eq_ok returned
      obtain ⟨⟨others, final⟩, found, finished⟩ := bind_eq_ok remaining
      cases finished
      obtain ⟨dev, parts⟩ := mbrFindOn_spec disk (fixed 0 node rfl) first
      exact .cons ⟨dev, parts⟩ (ih (diskNodes_tail fixed) found)

/-- A partition delivers its blocks of the disk. -/
theorem DiskNode.partOf_delivers (diskNode : DiskNode node contents) {disk blkSize : Nat} {range : DiskRange}
    (member : range ∈ mbrRanges disk blkSize node.dev.nblk mbr) :
    Delivers (partOf node.dev range) (fun blk => contents (range.base + blk)) ∧ range.disk = disk ∧
      range.base + range.nblk ≤ node.dev.nblk := by
  have bounds : range.disk = disk ∧ range.base + range.nblk ≤ node.dev.nblk := by
    unfold mbrRanges at member
    split at member
    · cases member
    · obtain ⟨ent, _, found⟩ := List.mem_filterMap.mp member
      unfold entRange at found
      split at found
      · cases found
      · next fits =>
          cases found
          exact ⟨rfl, Nat.le_of_not_lt (not_or.mp fits).2⟩
  have bounded := diskNode.bounded
  refine ⟨⟨fun blk => diskNode.delivers.sized _, fun src n world inside => ?_⟩, bounds⟩
  have inside' : src + n ≤ range.nblk := inside
  have translated : (partOf node.dev range).addr src = node.dev.addr (range.base + src) := by
    have set : (partOf node.dev range).flags &&& bfPart ≠ 0 := partFlags_set _
    rw [Blkdev.addr, if_neg set, Blkdev.addr, if_pos diskNode.whole, u64_of_lt]
    · exact Nat.add_comm _ _
    · show src + range.base < 2 ^ 64
      omega
  rw [translated]
  refine (diskNode.delivers.fills (range.base + src) n world (by omega)).trans ?_
  rw [← List.map_add_range', List.flatMap_map]

end

end Bwuhos
