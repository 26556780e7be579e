import Bwuhos.Mbr.Layout
import Bwuhos.Vfs.AutoMount
import Mathlib.Data.Nat.Pairing

namespace Bwuhos

open Bwuhos.Data

/-! # Blocks that two drives have in common

`mbr_find`, then `vfs_auto_mount`, on disks whose contents do not change.
-/

/-- The disk and its partitions that hold a FAT, in the order in which they are tried. -/
def fatRanges {World : Type} (contents : Nat → Nat → List UInt8) : (disk : Nat) → List (BlkNode World) → List DiskRange
  | _, [] => []
  | disk, node :: rest =>
      (diskRanges contents disk node).filter
          (fun range => node.dev.blkSize = 512 && range.nblk ≠ 0 && fatBoot (contents disk range.base)) ++
        fatRanges contents (disk + 1) rest

section

variable {World : Type} {platform : Platform World} {place : BlkTarget → Nat} {vfs after : Vfs World}
  {contents : Nat → Nat → List UInt8} {target : BlkTarget × Blkdev World}

def rangeOf (target : BlkTarget × Blkdev World) : DiskRange :=
  { disk := target.1.disk, base := target.2.partBase, nblk := target.2.nblk }

theorem partTargets_ranges {dev : Blkdev World} {which : Nat} (child : Nat) {ranges : List DiskRange}
    (here : ∀ range ∈ ranges, range.disk = which) :
    (partTargets which child (ranges.map (partOf dev))).map rangeOf = ranges := by
  induction ranges generalizing child with
  | nil => rfl
  | cons range rest ih =>
      have head : rangeOf (BlkTarget.part which child, partOf dev range) = range := by
        rw [← here range List.mem_cons_self]
        rfl
      rw [List.map_cons, partTargets, List.map_cons, head,
        ih (child + 1) fun other member => here other (List.mem_cons_of_mem _ member)]

theorem partTargets_mem {which : Nat} (child : Nat) {parts : List (Blkdev World)}
    (member : target ∈ partTargets which child parts) : target.1.disk = which ∧ target.2 ∈ parts := by
  induction parts generalizing child with
  | nil => cases member
  | cons part rest ih =>
      rcases List.mem_cons.mp member with rfl | member
      · exact ⟨rfl, List.mem_cons_self⟩
      · obtain ⟨disk, there⟩ := ih (child + 1) member
        exact ⟨disk, List.mem_cons_of_mem _ there⟩

theorem NodeParted.targetsOk {disk : Nat} {node after : BlkNode World} (parted : NodeParted contents disk node after)
    (diskNode : DiskNode node (contents disk)) :
    ∀ target ∈ nodeTargets disk after, TargetOk contents target ∧ target.1.disk = disk ∧
      target.2.blkSize = node.dev.blkSize := by
  intro target member
  rcases List.mem_cons.mp member with rfl | member
  · rw [parted.dev]
    refine ⟨⟨diskNode.devType, ?_, diskNode.bounded⟩, rfl, rfl⟩
    simp only [BlkTarget.disk, diskNode.base, Nat.zero_add]
    exact diskNode.delivers
  · obtain ⟨here, inParts⟩ := partTargets_mem 0 member
    rw [parted.parts] at inParts
    obtain ⟨range, inRanges, same⟩ := List.mem_map.mp inParts
    obtain ⟨delivers, _, fits⟩ := diskNode.partOf_delivers inRanges
    have bounded := diskNode.bounded
    refine ⟨⟨?_, ?_, ?_⟩, here, ?_⟩
    · rw [← same]
      exact diskNode.devType
    · rw [← same, here]
      exact delivers
    · rw [← same]
      show range.nblk < 2 ^ 64
      omega
    · rw [← same]
      rfl

theorem NodeParted.allRanges {disk : Nat} {node after : BlkNode World} (parted : NodeParted contents disk node after)
    (diskNode : DiskNode node (contents disk)) : (nodeTargets disk after).map rangeOf =
      diskRanges contents disk node := by
  rw [nodeTargets, parted.parts, parted.dev, List.map_cons,
    partTargets_ranges 0 fun range member => (diskNode.partOf_delivers member).2.1]
  exact congrArg (· :: _) (congrArg (DiskRange.mk disk · node.dev.nblk) diskNode.base)

theorem NodeParted.ranges {disk : Nat} {node after : BlkNode World} (parted : NodeParted contents disk node after)
    (diskNode : DiskNode node (contents disk)) :
    ((nodeTargets disk after).filter (holdsFat contents)).map rangeOf = (diskRanges contents disk node).filter
      (fun range => node.dev.blkSize = 512 && range.nblk ≠ 0 && fatBoot (contents disk range.base)) := by
  rw [← parted.allRanges diskNode, List.filter_map]
  refine congrArg (List.map rangeOf) (List.filter_congr fun target member => ?_)
  obtain ⟨_, here, blkSize⟩ := parted.targetsOk diskNode target member
  simp only [holdsFat, rangeOf, Function.comp_apply, here, blkSize]

theorem Parted.targets {disk : Nat} {disks blkdevs : List (BlkNode World)}
    (parted : Parted contents disk disks blkdevs)
    (fixed : ∀ index node, disks[index]? = some node → DiskNode node (contents (disk + index))) :
    ((treeTargets disk blkdevs).filter (holdsFat contents)).map rangeOf = fatRanges contents disk disks ∧
      ∀ target ∈ treeTargets disk blkdevs, TargetOk contents target := by
  induction parted with
  | nil disk => exact ⟨rfl, nofun⟩
  | @cons disk node after disks blkdevs head rest ih =>
      have diskNode : DiskNode node (contents disk) := fixed 0 node rfl
      obtain ⟨tail, tailOk⟩ := ih (diskNodes_tail fixed)
      refine ⟨?_, fun target member => ?_⟩
      · rw [treeTargets, List.filter_append, List.map_append, head.ranges diskNode, tail, fatRanges]
      · rcases List.mem_append.mp member with member | member
        · exact (head.targetsOk diskNode target member).1
        · exact tailOk target member

/-- The drives of two slots have no block of a disk in common. -/
def MountedDisjoint (place : BlkTarget → Nat) (blkdevs : List (BlkNode World)) (vfs : Vfs World) : Prop :=
  ∀ left right : Fin maxDrives, left ≠ right → (vfs.drives.get left).IsMounted → (vfs.drives.get right).IsMounted →
    ∀ leftTarget ∈ treeTargets 0 blkdevs, ∀ rightTarget ∈ treeTargets 0 blkdevs,
      (vfs.drives.get left).blkdev = place leftTarget.1 → (vfs.drives.get right).blkdev = place rightTarget.1 →
        (rangeOf leftTarget).Disjoint (rangeOf rightTarget)

theorem DiskRange.Disjoint.symm {left right : DiskRange} (disjoint : left.Disjoint right) : right.Disjoint left :=
  fun same blk both => disjoint same.symm blk both.symm

theorem Filled.disjoint_iff {blkdevs : List (BlkNode World)} {holders : List (BlkTarget × Blkdev World)}
    (filled : Filled after (holders.map fun target => place target.1)) (injective : Function.Injective place)
    (tried : ∀ target ∈ holders, target ∈ treeTargets 0 blkdevs) :
    MountedDisjoint place blkdevs after ↔
      holders.Pairwise fun left right => (rangeOf left).Disjoint (rangeOf right) := by
  have few := filled.few
  rw [List.length_map] at few
  have device : ∀ (slot : Fin maxDrives) (bound : slot.val < holders.length),
      (after.drives.get slot).blkdev = place holders[slot.val].1 := by
    intro slot bound
    exact filled.device slot _ (by rw [List.getElem?_map, List.getElem?_eq_getElem bound]; rfl)
  have mounted : ∀ slot : Fin maxDrives, (after.drives.get slot).IsMounted ↔ slot.val < holders.length := by
    intro slot
    rw [filled.mounted, List.length_map]
  constructor
  · intro disjoint
    refine List.pairwise_iff_getElem.mpr fun left right leftBound rightBound order => ?_
    have leftSlot := device ⟨left, Nat.lt_of_lt_of_le leftBound few⟩ leftBound
    have rightSlot := device ⟨right, Nat.lt_of_lt_of_le rightBound few⟩ rightBound
    exact disjoint ⟨left, Nat.lt_of_lt_of_le leftBound few⟩ ⟨right, Nat.lt_of_lt_of_le rightBound few⟩
      (fun same => Nat.ne_of_lt order (congrArg Fin.val same)) ((mounted _).mpr leftBound) ((mounted _).mpr rightBound)
      _ (tried _ (List.getElem_mem leftBound)) _ (tried _ (List.getElem_mem rightBound)) leftSlot rightSlot
  · intro pairwise left right different leftMounted rightMounted leftTarget leftThere rightTarget rightThere
      leftPlace rightPlace
    have leftBound := (mounted left).mp leftMounted
    have rightBound := (mounted right).mp rightMounted
    have holder : ∀ target ∈ treeTargets 0 blkdevs, ∀ (slot : Fin maxDrives) (bound : slot.val < holders.length),
        (after.drives.get slot).blkdev = place target.1 → target = holders[slot.val] := by
      intro target there slot bound placed
      rw [device slot bound] at placed
      exact List.inj_on_of_nodup_map (treeTargets_nodup 0 blkdevs).1 there (tried _ (List.getElem_mem bound))
        (injective placed).symm
    rw [holder leftTarget leftThere left leftBound leftPlace,
      holder rightTarget rightThere right rightBound rightPlace]
    rcases Nat.lt_or_gt_of_ne fun same => different (Fin.ext same) with order | order
    · exact List.pairwise_iff_getElem.mp pairwise _ _ leftBound rightBound order
    · exact (List.pairwise_iff_getElem.mp pairwise _ _ rightBound leftBound order).symm

/-- After the boot table, the drives are the first disks and partitions with a FAT. -/
theorem vfsAutoMount_filled {disks blkdevs : List (BlkNode World)} {world last : World}
    (injective : Function.Injective place)
    (fixed : ∀ disk node, disks[disk]? = some node → DiskNode node (contents disk))
    (found : mbrFind platform disks world = .ok (blkdevs, last)) (boot : vfs.drives = bootDrives)
    (mounted : vfsAutoMount platform place blkdevs vfs = .ok after) :
    ∃ holders : List (BlkTarget × Blkdev World), (∀ target ∈ holders, target ∈ treeTargets 0 blkdevs) ∧
      Filled after (holders.map fun target => place target.1) ∧
      holders.map rangeOf = (fatRanges contents 0 disks).take maxDrives := by
  have shifted : ∀ disk node, disks[disk]? = some node → DiskNode node (contents (0 + disk)) := by
    simpa only [Nat.zero_add] using fixed
  obtain ⟨ranges, targetsOk⟩ := (mbrFind_parted shifted found).targets shifted
  have filled := mountAll_filled (.boot boot) (.boot boot) targetsOk injective (treeTargets_nodup 0 blkdevs).1
    (fun _ _ => List.not_mem_nil) (autoMountFrom_eq.symm.trans mounted)
  rw [List.nil_append, ← List.map_take] at filled
  refine ⟨_, fun target member => (List.mem_filter.mp (List.mem_of_mem_take member)).1, filled, ?_⟩
  rw [List.map_take, ranges]

/-- After `mbr_find` and `vfs_auto_mount`, the drives have no block in common exactly when
that holds of the first disks and partitions with a FAT, as many as there are slots. -/
theorem auto_mount_disjoint_iff (platform : Platform World) (place : BlkTarget → Nat)
    (injective : Function.Injective place) (disks blkdevs : List (BlkNode World)) (contents : Nat → Nat → List UInt8)
    (fixed : ∀ disk node, disks[disk]? = some node → DiskNode node (contents disk)) (world last : World)
    (found : mbrFind platform disks world = .ok (blkdevs, last)) (vfs after : Vfs World)
    (boot : vfs.drives = bootDrives)
    (mounted : vfsAutoMount platform place blkdevs vfs = .ok after) :
    MountedDisjoint place blkdevs after ↔
      ((fatRanges contents 0 disks).take maxDrives).Pairwise DiskRange.Disjoint := by
  obtain ⟨holders, tried, filled, ranges⟩ := vfsAutoMount_filled injective fixed found boot mounted
  rw [← ranges, List.pairwise_map]
  exact filled.disjoint_iff injective tried

end

/-- Addresses for the devices, no two the same. -/
def pairedPlace : BlkTarget → Nat
  | .whole which => 2 * which
  | .part which child => 2 * Nat.pair which child + 1

theorem pairedPlace_injective : Function.Injective pairedPlace := by
  intro left right same
  cases left with
  | whole which =>
      cases right with
      | whole other =>
          have equal : 2 * which = 2 * other := same
          rw [Nat.eq_of_mul_eq_mul_left (by decide) equal]
      | part other child =>
          have equal : 2 * which = 2 * Nat.pair other child + 1 := same
          omega
  | part which child =>
      cases right with
      | whole other =>
          have equal : 2 * Nat.pair which child + 1 = 2 * other := same
          omega
      | part other position =>
          have equal : 2 * Nat.pair which child + 1 = 2 * Nat.pair other position + 1 := same
          obtain ⟨rfl, rfl⟩ := Nat.pair_eq_pair.mp (show Nat.pair which child = Nat.pair other position by omega)
          rfl

def memoryNode (contents : Nat → List UInt8) (nblk : Nat) : BlkNode Unit where
  dev := memoryDisk contents nblk
  children := some []

theorem memoryNode_ok {contents : Nat → List UInt8} {nblk : Nat} (sized : ∀ blk, (contents blk).length = 512)
    (bound : nblk < 2 ^ 64) (disk : Nat) (node : BlkNode Unit) (here : [memoryNode contents nblk][disk]? = some node) :
    DiskNode node contents := by
  rw [List.mem_singleton.mp (List.mem_of_getElem? here)]
  exact ⟨rfl, Nat.zero_and _, rfl, bound, rfl, memoryDisk_delivers sized nblk⟩

/-- `mbr_find` and `vfs_auto_mount` return on a disk in memory. -/
theorem memoryBoot_returns {contents : Nat → List UInt8} {nblk : Nat} (sized : ∀ blk, (contents blk).length = 512)
    (bound : nblk < 2 ^ 64) (clusters : ∀ range ∈ diskRanges (fun _ => contents) 0 (memoryNode contents nblk),
      bpbClusterSize (contents range.base) ≠ 0) :
    ∃ blkdevs after, mbrFind .zeroed [memoryNode contents nblk] () = .ok (blkdevs, ()) ∧
      vfsAutoMount .zeroed pairedPlace blkdevs { drives := bootDrives, world := () } = .ok after := by
  let every : Nat → Nat → List UInt8 := fun _ => contents
  have fixed : ∀ index node, [memoryNode contents nblk][index]? = some node → DiskNode node (every (0 + index)) :=
    memoryNode_ok sized bound
  have present : ∀ node ∈ [memoryNode contents nblk], node.children ≠ none := by
    intro node member null
    rw [List.mem_singleton.mp member] at null
    cases null
  obtain ⟨blkdevs, last, found⟩ := mbrFind_returns .zeroed 0 fixed present ()
  have parted := mbrFind_parted fixed found
  have targetsOk := (parted.targets fixed).2
  cases parted with
  | @cons _ _ after _ _ head rest =>
      cases rest
      have ranges := head.allRanges (fixed 0 _ rfl)
      have single : treeTargets 0 [after] = nodeTargets 0 after := List.append_nil _
      rw [single] at targetsOk
      have divides : ∀ target ∈ nodeTargets 0 after, bpbClusterSize (every target.1.disk target.2.partBase) ≠ 0 := by
        intro target member
        have tried : rangeOf target ∈ (nodeTargets 0 after).map rangeOf := List.mem_map_of_mem member
        rw [ranges] at tried
        exact clusters (rangeOf target) tried
      obtain ⟨mounted, returned⟩ := mountAll_returns zeroed_succeeds
        { drives := bootDrives, world := () } targetsOk divides
      rw [← single] at returned
      exact ⟨[after], mounted, found, autoMountFrom_eq.trans returned⟩

theorem auto_mount_disjoint_iff_small : ∃ blkdevs after,
    mbrFind .zeroed [memoryNode smallContents 4100] () = .ok (blkdevs, ()) ∧
      vfsAutoMount .zeroed pairedPlace blkdevs { drives := bootDrives, world := () } = .ok after ∧
      MountedDisjoint pairedPlace blkdevs after := by
  have clusters : ∀ range ∈ diskRanges (fun _ => smallContents) 0 (memoryNode smallContents 4100),
      bpbClusterSize (smallContents range.base) ≠ 0 := by decide +kernel
  obtain ⟨blkdevs, after, found, mounted⟩ := memoryBoot_returns smallContents_sized (by decide) clusters
  refine ⟨blkdevs, after, found, mounted, ?_⟩
  have ranges : fatRanges (fun _ => smallContents) 0 [memoryNode smallContents 4100] = [⟨0, 0, 4100⟩] := by
    decide +kernel
  refine (auto_mount_disjoint_iff .zeroed pairedPlace pairedPlace_injective [memoryNode smallContents 4100] blkdevs
    (fun _ => smallContents) (memoryNode_ok smallContents_sized (by decide)) () () found
    { drives := bootDrives, world := () }
    after rfl mounted).mpr ?_
  rw [ranges]
  exact List.pairwise_singleton _ _

/-- A boot sector with an entry for a partition that is the whole disk. -/
def hybridBoot : List UInt8 :=
  smallBoot.take 450 ++ [6, 0, 0, 0, 0, 0, 0, 0, 4, 16, 0, 0] ++ smallBoot.drop 462

def hybridContents (blk : Nat) : List UInt8 := if blk = 0 then hybridBoot else List.replicate 512 0

theorem hybridContents_sized (blk : Nat) : (hybridContents blk).length = 512 := by
  unfold hybridContents
  split
  · simp only [hybridBoot, List.length_append, List.length_take, List.length_drop, smallBoot_length, List.length_cons,
      List.length_nil]
    decide
  · exact List.length_replicate

/-- The first block of the disk is a FAT boot sector and a partition table with one entry,
for a partition from block 0 on, so that all the blocks are reachable through two drives. -/
theorem auto_mount_twice : ∃ blkdevs after,
    mbrFind .zeroed [memoryNode hybridContents 4100] () = .ok (blkdevs, ()) ∧
      vfsAutoMount .zeroed pairedPlace blkdevs { drives := bootDrives, world := () } = .ok after ∧
      ¬MountedDisjoint pairedPlace blkdevs after := by
  have clusters : ∀ range ∈ diskRanges (fun _ => hybridContents) 0 (memoryNode hybridContents 4100),
      bpbClusterSize (hybridContents range.base) ≠ 0 := by decide +kernel
  obtain ⟨blkdevs, after, found, mounted⟩ := memoryBoot_returns hybridContents_sized (by decide) clusters
  have ranges : fatRanges (fun _ => hybridContents) 0 [memoryNode hybridContents 4100] =
    [⟨0, 0, 4100⟩, ⟨0, 0, 4100⟩] := by
    decide +kernel
  obtain ⟨holders, tried, filled, drives⟩ := vfsAutoMount_filled pairedPlace_injective
    (memoryNode_ok hybridContents_sized (by decide)) found rfl mounted
  refine ⟨blkdevs, after, found, mounted, fun disjoint => ?_⟩
  have pairwise := (filled.disjoint_iff pairedPlace_injective tried).mp disjoint
  rw [← List.pairwise_map, drives, ranges] at pairwise
  have both := (List.pairwise_cons.mp pairwise).1 ⟨0, 0, 4100⟩ (List.mem_singleton_self _)
  exact both rfl 0 ⟨⟨Nat.le_refl 0, by decide⟩, ⟨Nat.le_refl 0, by decide⟩⟩

end Bwuhos
