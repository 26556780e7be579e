import Bwuhos.Data.Tree
import Bwuhos.Fat.Verify
import Bwuhos.Vfs.Mounts
import Mathlib.Data.List.Nodup

namespace Bwuhos

open Bwuhos.Data

/-! # Mounting forests of devices

`try_mount_tree` on devices whose children have children of their own.  On devices whose
contents do not change it fills the drives in the order in which the recursion meets the
devices with a FAT.
-/

/-- A `struct blkdev` and its address. -/
structure BlkAt (World : Type) where
  addr : Nat
  dev : Blkdev World

section

variable {World : Type}

/-- What `try_mount_tree` does about one device, without its children. -/
def tryMountAt (platform : Platform World) (node : BlkAt World) (vfs : Vfs World) : Except Stop (Vfs World) :=
  if node.dev.devType ≠ .diskDrive then .ok vfs
  else do
    let (rejected, world) ← fatVerify platform node.dev vfs.world
    if rejected ≠ 0 then return { vfs with world }
    let (_, vfs) ← vfsMount platform (fun _ => node.dev) { vfs with world } node.addr vfFat16
    return vfs

namespace Forest

/-- `try_mount_tree`: the device, then its children from the first to the last. -/
def tryMountTree (platform : Platform World) : OrderedTree (BlkAt World) → Vfs World → Except Stop (Vfs World) :=
  OrderedTree.visit (tryMountAt platform)

/-- `vfs_auto_mount` for these registered devices. -/
def vfsAutoMount (platform : Platform World) : List (OrderedTree (BlkAt World)) → Vfs World → Except Stop (Vfs World) :=
  OrderedTree.visitAll (tryMountAt platform)

end Forest

/-- The device mounted at a drive ID. -/
def mountedAt (vfs : Vfs World) : (id : Nat) → Option Nat
  | 0 => none
  | slot + 1 =>
      if inside : slot < maxDrives then
        let drive := vfs.drives.get ⟨slot, inside⟩
        if drive.IsMounted then some drive.blkdev else none
      else none

end

/-- The first slots hold the devices at these addresses, in this order, and the others are free. -/
structure Filled {World : Type} (vfs : Vfs World) (addrs : List Nat) : Prop where
  few : addrs.length ≤ maxDrives
  mounted : ∀ slot : Fin maxDrives, (vfs.drives.get slot).IsMounted ↔ slot.val < addrs.length
  device : ∀ (slot : Fin maxDrives) addr, addrs[slot.val]? = some addr → (vfs.drives.get slot).blkdev = addr

/-- A device, and what its blocks hold. -/
structure Mountable (World : Type) extends BlkAt World where
  contents : Nat → List UInt8

/-- The driver of a disk drive delivers blocks that do not change. -/
structure Mountable.Served {World : Type} (mountable : Mountable World) : Prop where
  delivers : mountable.dev.devType = .diskDrive → Delivers mountable.dev mountable.contents
  bounded : mountable.dev.devType = .diskDrive → mountable.dev.nblk < 2 ^ 64

/-- The cluster size of the boot sector can be divided by, where there is a boot sector. -/
def Mountable.Clustered {World : Type} (mountable : Mountable World) : Prop :=
  mountable.dev.devType = .diskDrive → mountable.dev.blkSize = 512 → mountable.dev.nblk ≠ 0 →
    bpbClusterSize (mountable.contents 0) ≠ 0

def Mountable.accepted {World : Type} (mountable : Mountable World) : Bool :=
  mountable.dev.devType = .diskDrive && mountable.dev.blkSize = 512 && mountable.dev.nblk ≠ 0 &&
    fatBoot (mountable.contents 0)

section

variable {World : Type} {platform : Platform World} {vfs after : Vfs World} {addrs : List Nat}
  {mountable : Mountable World} {addr id : Nat}

theorem Filled.congr (filled : Filled vfs addrs) (same : after.drives = vfs.drives) : Filled after addrs := by
  obtain ⟨few, mounted, device⟩ := filled
  rw [← same] at mounted device
  exact ⟨few, mounted, device⟩

theorem Filled.boot (boot : vfs.drives = bootDrives) : Filled vfs [] := by
  refine ⟨Nat.zero_le _, fun slot => ?_, nofun⟩
  rw [boot]
  exact iff_of_false (bootDrives_unmounted slot) (Nat.not_lt_zero _)

theorem Filled.slot (filled : Filled vfs addrs) {slot : Fin maxDrives} (found : vfsFindSlot vfs = some slot) :
    slot.val = addrs.length := by
  have free := vfsFindSlot_some found
  rw [filled.mounted, Nat.not_lt] at free
  obtain ⟨_, index, bound, here, before⟩ := List.find?_eq_some_iff_getElem.mp found
  rw [List.getElem_finRange] at here
  have position : index = slot.val := by
    rw [← here]
    rfl
  by_contra different
  have earlier := before addrs.length (by omega)
  rw [List.getElem_finRange] at earlier
  have mounted : (vfs.drives.get ⟨addrs.length, Nat.lt_of_le_of_lt free slot.isLt⟩).IsMounted := by
    simpa using earlier
  exact absurd ((filled.mounted _).mp mounted) (Nat.lt_irrefl _)

/-- All slots are taken. -/
theorem Filled.full (filled : Filled vfs addrs) (none : vfsFindSlot vfs = none) : addrs.length = maxDrives := by
  have last := (filled.mounted ⟨254, by decide⟩).mp (vfsFindSlot_none.mp none _)
  have few := filled.few
  simp only [maxDrives] at few last ⊢
  omega

theorem Filled.not_mounted (filled : Filled vfs addrs) (new : addr ∉ addrs) (slot : Fin maxDrives)
    (mounted : (vfs.drives.get slot).IsMounted) : (vfs.drives.get slot).blkdev ≠ addr := by
  intro here
  have bound := (filled.mounted slot).mp mounted
  have device := filled.device slot _ (List.getElem?_eq_getElem bound)
  rw [← here, device] at new
  exact new (List.getElem_mem bound)

/-- A drive put into the slot behind the others. -/
theorem Filled.set {slot : Fin maxDrives} {drive : Drive World} (filled : Filled vfs addrs)
    (next : slot.val = addrs.length) (drives : after.drives = vfs.drives.set slot drive slot.isLt)
    (mounted : drive.IsMounted) : Filled after (addrs ++ [drive.blkdev]) := by
  have bound := slot.isLt
  have length : (addrs ++ [drive.blkdev]).length = slot.val + 1 := by
    rw [List.length_append, List.length_singleton, next]
  refine ⟨by omega, fun other => ?_, fun other entry there => ?_⟩
  · rw [drives, length]
    by_cases here : other = slot
    · rw [here, Table.get_set_self]
      exact iff_of_true mounted (Nat.lt_succ_self _)
    · rw [Table.get_set_other here]
      refine (filled.mounted other).trans ?_
      omega
  · rw [drives]
    by_cases here : other = slot
    · rw [here, next, List.getElem?_concat_length] at there
      rw [here, Table.get_set_self]
      exact Option.some.inj there
    · have inside := (List.getElem?_eq_some_iff.mp there).1
      rw [List.getElem?_append_left (by omega)] at there
      rw [Table.get_set_other here]
      exact filled.device other entry there

/-- A device that is not mounted yet takes the next slot, as long as there is one. -/
theorem Filled.mount {dev : Blkdev World} (filled : Filled vfs addrs) (ok : TableOk vfs) (new : addr ∉ addrs)
    (accepted : ∀ code last, fatDriverCreate platform dev vfs.world ≠ .ok (.error code, last))
    (returned : vfsMount platform (fun _ => dev) vfs addr vfFat16 = .ok (id, after)) :
    Filled after ((addrs ++ [addr]).take maxDrives) := by
  rcases vfsMount_cases returned with ⟨_, same, refused⟩ | ⟨slot, driver, world, _, found, _, _, _, drives⟩
  · cases refused with
    | alreadyMounted mounted => exact absurd (ok.getMountFs_null.mpr (filled.not_mounted new)) mounted
    | noSlot full =>
        have length := filled.full full
        rw [List.take_append_of_le_length (Nat.le_of_eq length.symm), List.take_of_length_le filled.few]
        exact filled.congr same
    | unknownFs unknown => exact absurd rfl unknown
    | rejected code last failed => exact absurd failed (accepted code last)
  · have flags : dfMounted &&& dfMounted ≠ 0 := by decide
    have mounted := filled.set (filled.slot found) drives flags
    rwa [List.take_of_length_le mounted.few]

theorem Filled.mountedAt (filled : Filled vfs addrs) (slot : Nat) : mountedAt vfs (slot + 1) = addrs[slot]? := by
  have few := filled.few
  rw [Bwuhos.mountedAt]
  by_cases inside : slot < maxDrives
  · rw [dif_pos inside]
    have mounted := filled.mounted ⟨slot, inside⟩
    have device := filled.device ⟨slot, inside⟩
    cases there : addrs[slot]? with
    | none =>
        have beyond := List.getElem?_eq_none_iff.mp there
        exact if_neg fun isMounted => Nat.not_lt.mpr beyond (mounted.mp isMounted)
    | some addr =>
        rw [← device addr there]
        exact if_pos (mounted.mpr (List.getElem?_eq_some_iff.mp there).1)
  · rw [dif_neg inside, List.getElem?_eq_none_iff.mpr (by omega)]

theorem vfsCntMounted_eq (vfs : Vfs World) :
    vfsCntMounted vfs = (List.finRange maxDrives).countP fun slot => (vfs.drives.get slot).IsMounted := by
  have counted : ∀ (slots : List (Fin maxDrives)) nmounted,
      slots.foldl (fun nmounted slot => nmounted + if (vfs.drives.get slot).IsMounted then 1 else 0) nmounted =
        nmounted + slots.countP fun slot => (vfs.drives.get slot).IsMounted := by
    intro slots
    induction slots with
    | nil => exact fun nmounted => rfl
    | cons slot rest ih =>
        intro nmounted
        simp only [List.foldl_cons, ih, List.countP_cons, decide_eq_true_eq]
        omega
  exact (counted _ 0).trans (Nat.zero_add _)

theorem Filled.cntMounted (filled : Filled vfs addrs) : vfsCntMounted vfs = addrs.length := by
  rw [vfsCntMounted_eq, ← Table.countP_before filled.few]
  apply List.countP_congr
  intro slot _
  rw [decide_eq_true_eq, decide_eq_true_eq]
  exact filled.mounted slot

theorem Mountable.accepted_iff (drive : mountable.dev.devType = .diskDrive) : mountable.accepted = true ↔
    mountable.dev.blkSize = 512 ∧ mountable.dev.nblk ≠ 0 ∧ fatBoot (mountable.contents 0) = true := by
  simp [accepted, drive, and_assoc]

theorem tryMountAt_filled (filled : Filled vfs addrs) (ok : TableOk vfs) (served : mountable.Served)
    (new : mountable.addr ∉ addrs) (returned : tryMountAt platform mountable.toBlkAt vfs = .ok after) :
    TableOk after ∧ Filled after
      ((addrs ++ ([mountable].filter Mountable.accepted).map fun mountable => mountable.addr).take maxDrives) := by
  have skipped : mountable.accepted = false → after.drives = vfs.drives → TableOk after ∧ Filled after
      ((addrs ++ ([mountable].filter Mountable.accepted).map fun mountable => mountable.addr).take maxDrives) := by
    intro fails same
    rw [List.filter_cons_of_neg (by simp [fails]), List.filter_nil, List.map_nil, List.append_nil,
      List.take_of_length_le filled.few]
    exact ⟨ok.congr same, filled.congr same⟩
  unfold tryMountAt at returned
  split at returned
  · next other =>
      cases returned
      exact skipped (by simp [Mountable.accepted, other]) rfl
  · next drive =>
      have drive := not_not.mp drive
      obtain ⟨⟨rejected, world⟩, verify, rest⟩ := bind_eq_ok returned
      have verdict := (fatVerify_spec (served.delivers drive) (served.bounded drive) verify).trans
        (Mountable.accepted_iff drive).symm
      dsimp only at rest
      split at rest
      · next refused =>
          cases rest
          exact skipped (Bool.eq_false_iff.mpr fun holds => refused (verdict.mpr holds)) rfl
      · next verified =>
          have holds := verdict.mp (not_not.mp verified)
          obtain ⟨⟨id, mounted⟩, call, finished⟩ := bind_eq_ok rest
          cases finished
          rw [List.filter_cons_of_pos holds, List.filter_nil]
          have here : TableOk { vfs with world } := ok.congr rfl
          have before : Filled { vfs with world } addrs := filled.congr rfl
          exact ⟨here.mount call, before.mount here new (fun _ _ =>
            fatDriverCreate_accepts (served.delivers drive) (served.bounded drive)
              ((Mountable.accepted_iff drive).mp holds)) call⟩

theorem take_append_take {Value : Type} (first rest : List Value) (n : Nat) :
    (first.take n ++ rest).take n = (first ++ rest).take n := by
  have same : n - (first.take n).length = n - first.length := by
    rw [List.length_take]
    omega
  rw [List.take_append, List.take_take, Nat.min_self, same, ← List.take_append]

/-- After the whole recursion the drives are the devices with a FAT, as many as there are slots. -/
theorem mountEach_filled {mountables : List (Mountable World)} (filled : Filled vfs addrs) (ok : TableOk vfs)
    (served : ∀ mountable ∈ mountables, mountable.Served)
    (distinct : (mountables.map fun mountable => mountable.addr).Nodup)
    (new : ∀ mountable ∈ mountables, mountable.addr ∉ addrs)
    (returned : OrderedTree.each (tryMountAt platform) (mountables.map Mountable.toBlkAt) vfs = .ok after) :
    Filled after
      ((addrs ++ (mountables.filter Mountable.accepted).map fun mountable => mountable.addr).take maxDrives) := by
  induction mountables generalizing vfs addrs with
  | nil =>
      cases returned
      rw [List.filter_nil, List.map_nil, List.append_nil, List.take_of_length_le filled.few]
      exact filled
  | cons mountable rest ih =>
      rw [List.map_cons, OrderedTree.each, List.foldlM_cons] at returned
      obtain ⟨mounted, first, remaining⟩ := bind_eq_ok returned
      obtain ⟨notLater, restDistinct⟩ := List.nodup_cons.mp distinct
      obtain ⟨servedHere, servedLater⟩ := List.forall_mem_cons.mp served
      obtain ⟨newHere, newLater⟩ := List.forall_mem_cons.mp new
      obtain ⟨mountedOk, mountedFilled⟩ := tryMountAt_filled filled ok servedHere newHere first
      have later := ih mountedFilled mountedOk servedLater restDistinct ?_ remaining
      · rw [take_append_take, List.append_assoc, ← List.map_append, ← List.filter_append] at later
        exact later
      · intro other member inside
        cases List.mem_append.mp (List.mem_of_mem_take inside) with
        | inl old => exact newLater other member old
        | inr same =>
            obtain ⟨only, isFirst, placed⟩ := List.mem_map.mp same
            rw [List.mem_singleton.mp (List.mem_filter.mp isFirst).1] at placed
            exact notLater (List.mem_map.mpr ⟨other, member, placed.symm⟩)

theorem tryMountAt_returns (succeeds : AllocSucceeds platform) (served : mountable.Served)
    (clustered : mountable.Clustered) (vfs : Vfs World) :
    ∃ after, tryMountAt platform mountable.toBlkAt vfs = .ok after := by
  unfold tryMountAt
  split
  · exact ⟨_, rfl⟩
  · next drive =>
      have drive := not_not.mp drive
      obtain ⟨rejected, world, verify⟩ := fatVerify_returns platform (served.delivers drive) (served.bounded drive)
        (clustered drive) vfs.world
      rw [verify]
      simp only [bind, Except.bind]
      split
      · exact ⟨_, rfl⟩
      · cases vfsMount_returns succeeds (fun _ => mountable.dev) { vfs with world } mountable.addr vfFat16 with
        | inl returns =>
            obtain ⟨id, after, returned⟩ := returns
            rw [returned]
            exact ⟨_, rfl⟩
        | inr stops =>
            obtain ⟨stop, stopped⟩ := stops
            obtain ⟨made, last, created⟩ := fatDriverCreate_returns platform (served.delivers drive)
              (served.bounded drive) (clustered drive) world
            cases created.symm.trans stopped

theorem mountEach_returns {mountables : List (Mountable World)} (succeeds : AllocSucceeds platform)
    (served : ∀ mountable ∈ mountables, mountable.Served) (clustered : ∀ mountable ∈ mountables, mountable.Clustered)
    (vfs : Vfs World) :
    ∃ after, OrderedTree.each (tryMountAt platform) (mountables.map Mountable.toBlkAt) vfs = .ok after := by
  induction mountables generalizing vfs with
  | nil => exact ⟨vfs, rfl⟩
  | cons mountable rest ih =>
      obtain ⟨servedHere, servedLater⟩ := List.forall_mem_cons.mp served
      obtain ⟨clusteredHere, clusteredLater⟩ := List.forall_mem_cons.mp clustered
      obtain ⟨mounted, tried⟩ := tryMountAt_returns succeeds servedHere clusteredHere vfs
      obtain ⟨after, finished⟩ := ih servedLater clusteredLater mounted
      refine ⟨after, ?_⟩
      rw [List.map_cons, OrderedTree.each, List.foldlM_cons, tried]
      exact finished

theorem Mountable.accepted_iff_verify (served : mountable.Served) (clustered : mountable.Clustered) (now : World) :
    mountable.accepted = true ↔
      mountable.dev.devType = .diskDrive ∧ ∃ last, fatVerify platform mountable.dev now = .ok (0, last) := by
  by_cases drive : mountable.dev.devType = .diskDrive
  · obtain ⟨rejected, last, verify⟩ := fatVerify_returns platform (served.delivers drive) (served.bounded drive)
      (clustered drive) now
    rw [accepted_iff drive, ← fatVerify_spec (served.delivers drive) (served.bounded drive) verify, verify,
      and_iff_right drive]
    constructor
    · intro verified
      exact ⟨last, by rw [verified]⟩
    · intro same
      obtain ⟨other, same⟩ := same
      cases same
      rfl
  · have refused : mountable.accepted = false := by
      simp [accepted, drive]
    rw [refused]
    exact iff_of_false Bool.false_ne_true fun other => drive other.1

/-- What is known about the devices at some addresses. -/
def BlkAt.with (node : BlkAt World) (contents : Nat → Nat → List UInt8) : Mountable World :=
  { node with contents := contents node.addr }

/-- The addresses of the drives, in the order of their IDs. -/
def mountOrder (contents : Nat → Nat → List UInt8) (forest : List (OrderedTree (BlkAt World))) : List Nat :=
  (((OrderedTree.preorderAll forest).filter fun node => (node.with contents).accepted).map BlkAt.addr).take maxDrives

/-- From the boot table, `vfs_auto_mount` mounts the disk drives of a forest that
`fat_verify` accepts, in preorder, until there is no slot left. -/
theorem vfs_auto_mount_preorder (platform : Platform World) (succeeds : AllocSucceeds platform)
    (forest : List (OrderedTree (BlkAt World))) (contents : Nat → Nat → List UInt8)
    (served : ∀ node ∈ OrderedTree.preorderAll forest, (node.with contents).Served)
    (clustered : ∀ node ∈ OrderedTree.preorderAll forest, (node.with contents).Clustered)
    (distinct : ((OrderedTree.preorderAll forest).map BlkAt.addr).Nodup) (world : World) :
    (∀ node ∈ OrderedTree.preorderAll forest, ∀ now, (node.with contents).accepted = true ↔
      node.dev.devType = .diskDrive ∧ ∃ last, fatVerify platform node.dev now = .ok (0, last)) ∧
    ∃ after, Forest.vfsAutoMount platform forest { drives := bootDrives, world } = .ok after ∧
      (∀ slot, mountedAt after (slot + 1) = (mountOrder contents forest)[slot]?) ∧
      (mountOrder contents forest).Nodup ∧ vfsCntMounted after = (mountOrder contents forest).length := by
  refine ⟨fun node member => Mountable.accepted_iff_verify (served node member) (clustered node member), ?_⟩
  have mountables := List.forall_mem_map.mpr served
  have plain : ((OrderedTree.preorderAll forest).map fun node => node.with contents).map Mountable.toBlkAt =
      OrderedTree.preorderAll forest := by
    rw [List.map_map]
    exact List.map_id _
  have places : (((OrderedTree.preorderAll forest).map fun node => node.with contents).map fun mountable =>
      mountable.addr).Nodup := by
    rw [List.map_map]
    exact distinct
  obtain ⟨after, returned⟩ := @mountEach_returns World platform _ succeeds mountables
    (List.forall_mem_map.mpr clustered) { drives := bootDrives, world }
  have filled := mountEach_filled (.boot rfl) (.boot rfl) mountables places (fun _ _ => List.not_mem_nil) returned
  rw [List.nil_append, List.filter_map, List.map_map] at filled
  have order : Filled after (mountOrder contents forest) := filled
  rw [plain] at returned
  refine ⟨after, (OrderedTree.visitAll_eq _ _ _).trans returned, order.mountedAt, ?_, order.cntMounted⟩
  exact ((List.filter_sublist.map _).nodup distinct).sublist (List.take_sublist _ _)

end

/-- A device that is no disk drive, with a disk as its child and another one below that. -/
def nestedForest : List (OrderedTree (BlkAt Unit)) :=
  [.node ⟨0x1000, { smallDisk with devType := .null }⟩ [.node ⟨0x2000, smallDisk⟩ [.node ⟨0x3000, smallDisk⟩ []]]]

theorem nestedForest_order : mountOrder (fun _ => smallContents) nestedForest = [0x2000, 0x3000] := by
  decide +kernel

theorem vfs_auto_mount_preorder_nested : ∃ after,
    Forest.vfsAutoMount .zeroed nestedForest { drives := bootDrives, world := () } = .ok after ∧
      mountedAt after 1 = some 0x2000 ∧ mountedAt after 2 = some 0x3000 ∧ mountedAt after 3 = none ∧
      vfsCntMounted after = 2 := by
  have served : ∀ node ∈ OrderedTree.preorderAll nestedForest, (node.with fun _ => smallContents).Served := by
    simp only [nestedForest, OrderedTree.preorderAll, OrderedTree.preorder, List.append_nil, List.forall_mem_cons]
    have disk : ∀ addr, (BlkAt.with ⟨addr, smallDisk⟩ fun _ => smallContents).Served := fun addr =>
      ⟨fun _ => smallDisk_volume.delivers, fun _ => show 4100 < 2 ^ 64 by decide⟩
    refine ⟨⟨fun drive => ?_, fun drive => ?_⟩, disk _, disk _, fun _ member => absurd member List.not_mem_nil⟩ <;>
      cases drive
  have clustered : ∀ node ∈ OrderedTree.preorderAll nestedForest, (node.with fun _ => smallContents).Clustered := by
    intro node _ _ _ _
    show bpbClusterSize (smallContents 0) ≠ 0
    decide +kernel
  obtain ⟨_, after, returned, order, _, count⟩ := vfs_auto_mount_preorder .zeroed zeroed_succeeds nestedForest _ served
    clustered (by decide) ()
  rw [nestedForest_order] at order count
  exact ⟨after, returned, order 0, order 1, order 2, count⟩

end Bwuhos
