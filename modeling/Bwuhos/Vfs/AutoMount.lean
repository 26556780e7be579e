import Bwuhos.Vfs.Forest

namespace Bwuhos

open Bwuhos.Data

/-! # Mounting all devices

`vfs_auto_mount` on devices whose contents do not change fills the drives in the order in
which the recursion meets the devices with a FAT.
-/

def partTargets {World : Type} (which : Nat) : (child : Nat) → List (Blkdev World) → List (BlkTarget × Blkdev World)
  | _, [] => []
  | child, part :: rest => (.part which child, part) :: partTargets which (child + 1) rest

def nodeTargets {World : Type} (which : Nat) (node : BlkNode World) : List (BlkTarget × Blkdev World) :=
  (.whole which, node.dev) :: partTargets which 0 (node.children.getD [])

def treeTargets {World : Type} : (which : Nat) → List (BlkNode World) → List (BlkTarget × Blkdev World)
  | _, [] => []
  | which, node :: rest =>
      nodeTargets which node ++ treeTargets (which + 1) rest

def BlkTarget.disk : BlkTarget → Nat
  | .whole which => which
  | .part which _ => which

def mountAll {World : Type} (platform : Platform World) (place : BlkTarget → Nat) :
    List (BlkTarget × Blkdev World) → Vfs World → Except Stop (Vfs World)
  | [], vfs => .ok vfs
  | (target, dev) :: rest, vfs => tryMount platform place target dev vfs >>= mountAll platform place rest

section

variable {World : Type} {platform : Platform World} {place : BlkTarget → Nat} {vfs after : Vfs World}
    {which child : Nat}

theorem mountAll_append {first rest : List (BlkTarget × Blkdev World)} :
    mountAll platform place (first ++ rest) vfs =
      mountAll platform place first vfs >>= mountAll platform place rest := by
  induction first generalizing vfs with
  | nil => rfl
  | cons target others ih =>
      simp only [List.cons_append, mountAll]
      cases tryMount platform place target.1 target.2 vfs with
      | error stop => rfl
      | ok mounted => exact ih

theorem tryMountParts_eq {parts : List (Blkdev World)} :
    tryMountParts platform place which child parts vfs =
      mountAll platform place (partTargets which child parts) vfs := by
  induction parts generalizing child vfs with
  | nil => rfl
  | cons part rest ih =>
      simp only [tryMountParts, partTargets, mountAll, ih]

theorem autoMountFrom_eq {blkdevs : List (BlkNode World)} :
    autoMountFrom platform place which blkdevs vfs = mountAll platform place (treeTargets which blkdevs) vfs := by
  induction blkdevs generalizing which vfs with
  | nil => rfl
  | cons node rest ih =>
      simp only [autoMountFrom, tryMountTree, treeTargets, nodeTargets, List.cons_append, mountAll,
        tryMountParts_eq, ih, bind_assoc]
      exact congrArg _ (funext fun mounted => mountAll_append.symm)

/-- A registered device and its partitions, as a tree. -/
def nodeTree (place : BlkTarget → Nat) (which : Nat) (node : BlkNode World) : OrderedTree (BlkAt World) :=
  .node ⟨place (.whole which), node.dev⟩
    (((partTargets which 0 (node.children.getD [])).map fun target => ⟨place target.1, target.2⟩).map fun part =>
      .node part [])

def nodeTrees (place : BlkTarget → Nat) : (which : Nat) → List (BlkNode World) → List (OrderedTree (BlkAt World))
  | _, [] => []
  | which, node :: rest => nodeTree place which node :: nodeTrees place (which + 1) rest

theorem preorderAll_nodeTrees (blkdevs : List (BlkNode World)) :
    OrderedTree.preorderAll (nodeTrees place which blkdevs) =
      (treeTargets which blkdevs).map fun target => ⟨place target.1, target.2⟩ := by
  induction blkdevs generalizing which with
  | nil => rfl
  | cons node rest ih =>
      simp only [nodeTrees, nodeTree, OrderedTree.preorderAll, OrderedTree.preorder, OrderedTree.preorderAll_leaves,
        ih, treeTargets, nodeTargets, List.map_append, List.map_cons]

/-- The two levels that `mbr.c` makes are mounted as the forest that they are. -/
theorem vfsAutoMount_forest (blkdevs : List (BlkNode World)) :
    vfsAutoMount platform place blkdevs vfs = Forest.vfsAutoMount platform (nodeTrees place 0 blkdevs) vfs := by
  rw [vfsAutoMount, autoMountFrom_eq, Forest.vfsAutoMount, OrderedTree.visitAll_eq, preorderAll_nodeTrees]
  generalize treeTargets 0 blkdevs = targets
  induction targets generalizing vfs with
  | nil => rfl
  | cons target rest ih =>
      rw [mountAll, List.map_cons, OrderedTree.each, List.foldlM_cons]
      exact congrArg _ (funext fun mounted => ih)

theorem partTargets_nodup (which child : Nat) (parts : List (Blkdev World)) :
    ((partTargets which child parts).map Prod.fst).Nodup ∧
    ∀ target ∈ (partTargets which child parts).map Prod.fst, ∃ later ≥ child, target = .part which later := by
  induction parts generalizing child with
  | nil => exact ⟨List.nodup_nil, nofun⟩
  | cons part rest ih =>
      obtain ⟨distinct, later⟩ := ih (child + 1)
      refine ⟨List.nodup_cons.mpr ⟨fun member => ?_, distinct⟩, fun target member => ?_⟩
      · obtain ⟨other, above, same⟩ := later _ member
        cases same
        omega
      · rcases List.mem_cons.mp member with rfl | member
        · exact ⟨child, Nat.le_refl _, rfl⟩
        · obtain ⟨other, above, same⟩ := later target member
          exact ⟨other, by omega, same⟩

theorem treeTargets_nodup (which : Nat) (blkdevs : List (BlkNode World)) :
    ((treeTargets which blkdevs).map Prod.fst).Nodup ∧
    ∀ target ∈ (treeTargets which blkdevs).map Prod.fst, which ≤ target.disk := by
  induction blkdevs generalizing which with
  | nil => exact ⟨List.nodup_nil, nofun⟩
  | cons node rest ih =>
      obtain ⟨distinct, later⟩ := ih (which + 1)
      obtain ⟨parts, shape⟩ := partTargets_nodup which 0 (node.children.getD [])
      simp only [treeTargets, nodeTargets, List.cons_append, List.map_cons, List.map_append]
      refine ⟨List.nodup_cons.mpr ⟨fun member => ?_, List.nodup_append.mpr ⟨parts, distinct, ?_⟩⟩,
        fun target member => ?_⟩
      · rcases List.mem_append.mp member with member | member
        · obtain ⟨_, _, same⟩ := shape _ member
          cases same
        · exact absurd (later _ member) (Nat.not_succ_le_self which)
      · rintro left inParts right inRest rfl
        obtain ⟨_, _, rfl⟩ := shape _ inParts
        exact absurd (later _ inRest) (Nat.not_succ_le_self which)
      · rcases List.mem_cons.mp member with rfl | member
        · exact Nat.le_refl which
        · rcases List.mem_append.mp member with member | member
          · obtain ⟨_, _, rfl⟩ := shape _ member
            exact Nat.le_refl which
          · exact Nat.le_of_succ_le (later _ member)

end

/-- A device that holds blocks of its disk, which do not change. -/
structure TargetOk {World : Type} (contents : Nat → Nat → List UInt8) (target : BlkTarget × Blkdev World) : Prop where
  devType : target.2.devType = .diskDrive
  delivers : Delivers target.2 fun blk => contents target.1.disk (target.2.partBase + blk)
  bounded : target.2.nblk < 2 ^ 64

def holdsFat {World : Type} (contents : Nat → Nat → List UInt8) (target : BlkTarget × Blkdev World) : Bool :=
  target.2.blkSize = 512 && target.2.nblk ≠ 0 && fatBoot (contents target.1.disk target.2.partBase)

section

variable {World : Type} {platform : Platform World} {place : BlkTarget → Nat} {vfs after : Vfs World}
  {addrs : List Nat} {contents : Nat → Nat → List UInt8} {target : BlkTarget × Blkdev World}

/-- A device of the two levels, as one of a forest. -/
def mountableOf (place : BlkTarget → Nat) (contents : Nat → Nat → List UInt8) (target : BlkTarget × Blkdev World) :
    Mountable World where
  addr := place target.1
  dev := target.2
  contents blk := contents target.1.disk (target.2.partBase + blk)

theorem TargetOk.served (targetOk : TargetOk contents target) : (mountableOf place contents target).Served :=
  ⟨fun _ => targetOk.delivers, fun _ => targetOk.bounded⟩

theorem TargetOk.accepted (targetOk : TargetOk contents target) :
    (mountableOf place contents target).accepted = holdsFat contents target := by
  rw [Bool.eq_iff_iff, Mountable.accepted_iff targetOk.devType]
  simp [holdsFat, mountableOf, and_assoc]

theorem mountAll_each {targets : List (BlkTarget × Blkdev World)} : mountAll platform place targets vfs =
    OrderedTree.each (tryMountAt platform) ((targets.map (mountableOf place contents)).map Mountable.toBlkAt) vfs := by
  induction targets generalizing vfs with
  | nil => rfl
  | cons target rest ih =>
      rw [mountAll, List.map_cons, List.map_cons, OrderedTree.each, List.foldlM_cons]
      exact congrArg _ (funext fun mounted => ih)

/-- After the whole recursion the drives are the devices with a FAT, as many as there are slots. -/
theorem mountAll_filled {targets : List (BlkTarget × Blkdev World)} (filled : Filled vfs addrs) (ok : TableOk vfs)
    (targetsOk : ∀ target ∈ targets, TargetOk contents target) (injective : Function.Injective place)
    (distinct : (targets.map Prod.fst).Nodup) (new : ∀ target ∈ targets, place target.1 ∉ addrs)
    (returned : mountAll platform place targets vfs = .ok after) :
    Filled after ((addrs ++ (targets.filter (holdsFat contents)).map fun target => place target.1).take
      maxDrives) := by
  have places : ((targets.map (mountableOf place contents)).map fun mountable => mountable.addr).Nodup := by
    rw [List.map_map]
    have placed := distinct.map injective
    rwa [List.map_map] at placed
  have each := mountEach_filled filled ok ?_ places ?_ (mountAll_each.symm.trans returned)
  · have same : targets.filter (Mountable.accepted ∘ mountableOf place contents) = targets.filter (holdsFat contents) :=
      List.filter_congr fun target member => (targetsOk target member).accepted
    rw [List.filter_map, List.map_map, same] at each
    exact each
  · intro mountable member
    obtain ⟨target, there, rfl⟩ := List.mem_map.mp member
    exact (targetsOk target there).served
  · intro mountable member
    obtain ⟨target, there, rfl⟩ := List.mem_map.mp member
    exact new target there

theorem mountAll_returns {targets : List (BlkTarget × Blkdev World)} (succeeds : AllocSucceeds platform)
    (vfs : Vfs World)
    (targetsOk : ∀ target ∈ targets, TargetOk contents target)
    (clusters : ∀ target ∈ targets, bpbClusterSize (contents target.1.disk target.2.partBase) ≠ 0) :
    ∃ after, mountAll platform place targets vfs = .ok after := by
  have each := @mountEach_returns World platform (targets.map (mountableOf place contents)) succeeds ?_ ?_ vfs
  · rwa [← mountAll_each] at each
  · intro mountable member
    obtain ⟨target, there, rfl⟩ := List.mem_map.mp member
    exact (targetsOk target there).served
  · intro mountable member
    obtain ⟨target, there, rfl⟩ := List.mem_map.mp member
    exact fun _ _ _ => clusters target there

end

end Bwuhos
