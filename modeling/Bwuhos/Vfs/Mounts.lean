import Bwuhos.BlkCache.Reads
import Bwuhos.Fat.Runs
import Bwuhos.Vfs

namespace Bwuhos

open Bwuhos.Data

/-! # The mount table

Which drives the table holds after any sequence of mounts.
-/

structure MountRequest (World : Type) where
  devAt : Nat → Blkdev World
  blkdev : Nat
  fs : Nat

/-- The boot table, then calls of `vfs_mount`.  The world may change in any way between
two calls. -/
def mountSystem {World : Type} (platform : Platform World) : TransitionSystem (Vfs World) (MountRequest World) where
  initial vfs := vfs.drives = bootDrives
  step before request after := ∃ world id,
    vfsMount platform request.devAt { before with world } request.blkdev request.fs = .ok (id, after)

/-- The call has put the device into a free slot, and returned the number of that slot. -/
structure MountsInto {World : Type} (before after : Vfs World) (blkdev fs id : Nat) (slot : Fin maxDrives) : Prop where
  number : id = slot + 1
  free : ¬(before.drives.get slot).IsMounted
  mounted : (after.drives.get slot).IsMounted
  device : (after.drives.get slot).blkdev = blkdev
  fileSystem : (after.drives.get slot).fs = fs
  others : ∀ other : Fin maxDrives, other ≠ slot → after.drives.get other = before.drives.get other

/-- Mounted drives hold different devices, and a file system that is not `VF_NULL`. -/
structure TableOk {World : Type} (vfs : Vfs World) : Prop where
  unique : ∀ left right : Fin maxDrives, (vfs.drives.get left).IsMounted → (vfs.drives.get right).IsMounted →
    (vfs.drives.get left).blkdev = (vfs.drives.get right).blkdev → left = right
  typed : ∀ slot : Fin maxDrives, (vfs.drives.get slot).IsMounted → (vfs.drives.get slot).fs ≠ vfNull

section

variable {World : Type} {platform : Platform World} {devAt : Nat → Blkdev World} {vfs before after : Vfs World}
  {blkdev fs id : Nat} {slot : Fin maxDrives}

theorem vfsFindSlot_some (found : vfsFindSlot vfs = some slot) : ¬(vfs.drives.get slot).IsMounted := by
  have free := List.find?_some found
  exact of_decide_eq_true free

theorem vfsFindSlot_none : vfsFindSlot vfs = none ↔ ∀ slot : Fin maxDrives, (vfs.drives.get slot).IsMounted := by
  rw [vfsFindSlot, List.find?_eq_none]
  simp only [List.mem_finRange, forall_const, decide_eq_true_eq, not_not]

/-- The guard of `vfs_mount`: the answer is `VF_NULL` exactly for devices that are not mounted. -/
theorem TableOk.getMountFs_null (ok : TableOk vfs) : vfsGetMountFs vfs blkdev = vfNull ↔
    ∀ slot : Fin maxDrives, (vfs.drives.get slot).IsMounted → (vfs.drives.get slot).blkdev ≠ blkdev := by
  unfold vfsGetMountFs
  split
  · next absent =>
      refine iff_of_true rfl fun slot mounted same => ?_
      have missing := List.find?_eq_none.mp absent slot (List.mem_finRange slot)
      exact missing (decide_eq_true ⟨mounted, same⟩)
  · next slot found =>
      have satisfied := List.find?_some found
      have here := of_decide_eq_true satisfied
      exact iff_of_false (ok.typed slot here.1) fun none => none slot here.1 here.2

theorem TableOk.getMountFs (ok : TableOk vfs) (mounted : (vfs.drives.get slot).IsMounted) :
    vfsGetMountFs vfs (vfs.drives.get slot).blkdev = (vfs.drives.get slot).fs := by
  unfold vfsGetMountFs
  split
  · next absent =>
      have missing := List.find?_eq_none.mp absent slot (List.mem_finRange slot)
      exact absurd (decide_eq_true ⟨mounted, rfl⟩) missing
  · next other found =>
      have satisfied := List.find?_some found
      have here := of_decide_eq_true satisfied
      rw [ok.unique other slot here.1 mounted here.2]

/-- Why `vfs_mount` refuses a device. -/
inductive MountRefused (platform : Platform World) (devAt : Nat → Blkdev World) (vfs : Vfs World)
    (blkdev fs : Nat) : Prop
  | alreadyMounted (mounted : vfsGetMountFs vfs blkdev ≠ vfNull)
  | noSlot (full : vfsFindSlot vfs = none)
  | unknownFs (unknown : fs ≠ vfFat16)
  | rejected (code : Nat) (world : World)
      (failed : fatDriverCreate platform (devAt blkdev) vfs.world = .ok (.error code, world))

theorem fatVfsFsDriverCreate_ok {driver made : FatDriver World} {world last : World}
    (created : fatVfsFsDriverCreate platform driver world = .ok (made, last)) : made = driver := by
  unfold fatVfsFsDriverCreate at created
  split at created <;> cases created
  rfl

/-- All that `vfs_mount` can do: it refuses and leaves the table alone, or it fills a free slot. -/
theorem vfsMount_cases (returned : vfsMount platform devAt vfs blkdev fs = .ok (id, after)) :
    (id = 0 ∧ after.drives = vfs.drives ∧ MountRefused platform devAt vfs blkdev fs) ∨
      ∃ slot driver world, vfsGetMountFs vfs blkdev = vfNull ∧ vfsFindSlot vfs = some slot ∧ fs = vfFat16 ∧
        id = slot + 1 ∧
        fatDriverCreate platform (devAt blkdev) vfs.world = .ok (.ok driver, world) ∧
        after.drives = vfs.drives.set slot { driver := some driver, blkdev, fs, flags := dfMounted } slot.isLt := by
  unfold vfsMount at returned
  split at returned
  · next mounted =>
      cases returned
      exact Or.inl ⟨rfl, rfl, .alreadyMounted mounted⟩
  · next unmounted =>
      cases search : vfsFindSlot vfs with
      | none =>
          rw [search] at returned
          cases returned
          exact Or.inl ⟨rfl, rfl, .noSlot search⟩
      | some slot =>
          rw [search] at returned
          dsimp only at returned
          split at returned
          · next known =>
              obtain ⟨⟨fsDriver, world⟩, created, rest⟩ := bind_eq_ok returned
              cases fsDriver with
              | error code =>
                  cases rest
                  exact Or.inl ⟨rfl, rfl, .rejected code world created⟩
              | ok fsDriver =>
                  obtain ⟨⟨driver, last⟩, allocated, finished⟩ := bind_eq_ok rest
                  cases finished
                  rw [fatVfsFsDriverCreate_ok allocated]
                  exact Or.inr ⟨slot, fsDriver, world, not_not.mp unmounted, rfl, known, rfl, created, rfl⟩
          · next unknown =>
              cases returned
              exact Or.inl ⟨rfl, rfl, .unknownFs unknown⟩

theorem vfsMount_refused (returned : vfsMount platform devAt vfs blkdev fs = .ok (id, after))
    (refused : MountRefused platform devAt vfs blkdev fs) : id = 0 := by
  rcases vfsMount_cases returned with ⟨null, _⟩ | ⟨slot, driver, world, unmounted, found, known, _, created, _⟩
  · exact null
  · cases refused with
    | alreadyMounted mounted => exact absurd unmounted mounted
    | noSlot full => cases full.symm.trans found
    | unknownFs unknown => exact absurd known unknown
    | rejected code last failed => cases failed.symm.trans created

theorem vfsMount_into (returned : vfsMount platform devAt vfs blkdev fs = .ok (id, after)) (mounted : id ≠ 0) :
    vfsGetMountFs vfs blkdev = vfNull ∧ fs = vfFat16 ∧ ∃ slot, MountsInto vfs after blkdev fs id slot := by
  rcases vfsMount_cases returned with ⟨null, _⟩ | ⟨slot, driver, world, unmounted, found, known, number, _, drives⟩
  · exact absurd null mounted
  · have here : after.drives.get slot = { driver := some driver, blkdev, fs, flags := dfMounted } := by
      rw [drives, Table.get_set_self]
    have flags : dfMounted &&& dfMounted ≠ 0 := by decide
    refine ⟨unmounted, known, slot, number, vfsFindSlot_some found, ?_, ?_, ?_, fun other different => ?_⟩
    · rw [here]
      exact flags
    · rw [here]
    · rw [here]
    · rw [drives, Table.get_set_other different]

theorem MountsInto.tableOk (into : MountsInto before after blkdev fs id slot) (ok : TableOk before)
    (unmounted : vfsGetMountFs before blkdev = vfNull) (known : fs = vfFat16) : TableOk after := by
  have absent := ok.getMountFs_null.mp unmounted
  constructor
  · intro left right leftMounted rightMounted same
    by_cases leftNew : left = slot
    · by_cases rightNew : right = slot
      · exact leftNew.trans rightNew.symm
      · rw [into.others right rightNew] at rightMounted same
        rw [leftNew, into.device] at same
        exact absurd same.symm (absent right rightMounted)
    · by_cases rightNew : right = slot
      · rw [into.others left leftNew] at leftMounted same
        rw [rightNew, into.device] at same
        exact absurd same (absent left leftMounted)
      · rw [into.others left leftNew] at leftMounted same
        rw [into.others right rightNew] at rightMounted same
        exact ok.unique left right leftMounted rightMounted same
  · intro other mounted
    by_cases new : other = slot
    · rw [new, into.fileSystem, known]
      decide
    · rw [into.others other new] at mounted ⊢
      exact ok.typed other mounted

theorem TableOk.congr (ok : TableOk before) (same : after.drives = before.drives) : TableOk after := by
  obtain ⟨unique, typed⟩ := ok
  rw [← same] at unique typed
  exact ⟨unique, typed⟩

theorem bootDrives_unmounted (slot : Fin maxDrives) :
    ¬((bootDrives : Vector (Drive World) maxDrives).get slot).IsMounted := by
  have unset : ¬(0 &&& dfMounted ≠ 0) := by decide
  rw [bootDrives, Table.get_replicate]
  exact unset

theorem TableOk.boot (boot : vfs.drives = bootDrives) : TableOk vfs := by
  constructor
  · intro left _ mounted
    rw [boot] at mounted
    exact absurd mounted (bootDrives_unmounted left)
  · intro slot mounted
    rw [boot] at mounted
    exact absurd mounted (bootDrives_unmounted slot)

theorem TableOk.mount (ok : TableOk vfs) (returned : vfsMount platform devAt vfs blkdev fs = .ok (id, after)) :
    TableOk after := by
  by_cases failed : id = 0
  · rcases vfsMount_cases returned with ⟨_, same, _⟩ | ⟨slot, _, _, _, _, _, number, _⟩
    · exact ok.congr same
    · omega
  · obtain ⟨unmounted, known, slot, into⟩ := vfsMount_into returned failed
    exact into.tableOk ok unmounted known

theorem mount_reachable_ok (reached : (mountSystem platform).Reachable vfs) : TableOk vfs := by
  refine reached.invariant TableOk (fun _ => .boot) ?_
  rintro before request after _ ok ⟨world, id, returned⟩
  have here : TableOk { before with world } := ok.congr rfl
  exact here.mount returned

/-- With memory for the driver, the only place where a mount can get stuck is `fat_driver_create`. -/
theorem vfsMount_returns (succeeds : AllocSucceeds platform) (devAt : Nat → Blkdev World) (vfs : Vfs World)
    (blkdev fs : Nat) :
    (∃ id after, vfsMount platform devAt vfs blkdev fs = .ok (id, after)) ∨
      ∃ stop, fatDriverCreate platform (devAt blkdev) vfs.world = .error stop := by
  unfold vfsMount
  split
  · exact Or.inl ⟨_, _, rfl⟩
  · split
    · exact Or.inl ⟨_, _, rfl⟩
    · split
      · cases created : fatDriverCreate platform (devAt blkdev) vfs.world with
        | error stop => exact Or.inr ⟨stop, rfl⟩
        | ok made =>
            obtain ⟨fsDriver, world⟩ := made
            cases fsDriver with
            | error code => exact Or.inl ⟨_, _, rfl⟩
            | ok fsDriver =>
                obtain ⟨bytes, answer, _⟩ := succeeds.alloc fatDriverSize world
                simp only [bind, Except.bind, fatVfsFsDriverCreate, answer]
                exact Or.inl ⟨_, _, rfl⟩
      · exact Or.inl ⟨_, _, rfl⟩

/-- After any sequence of mounts no device is mounted twice, and every further call
either puts its device into a free slot or returns 0 and leaves the table alone. -/
theorem vfs_mount_table (platform : Platform World) (succeeds : AllocSucceeds platform) (vfs : Vfs World)
    (reached : (mountSystem platform).Reachable vfs) (request : MountRequest World) (world : World) :
    (∀ left right : Fin maxDrives, (vfs.drives.get left).IsMounted → (vfs.drives.get right).IsMounted →
      (vfs.drives.get left).blkdev = (vfs.drives.get right).blkdev → left = right) ∧
    ((∃ id after, vfsMount platform request.devAt { vfs with world } request.blkdev request.fs = .ok (id, after)) ∨
      ∃ stop, fatDriverCreate platform (request.devAt request.blkdev) world = .error stop) ∧
    ∀ id after, vfsMount platform request.devAt { vfs with world } request.blkdev request.fs = .ok (id, after) →
      (id ≠ 0 → (1 ≤ id ∧ id ≤ 255) ∧ (∃ slot, MountsInto vfs after request.blkdev request.fs id slot) ∧
        vfsGetMountFs after request.blkdev = request.fs) ∧
      (id = 0 → after.drives = vfs.drives) ∧
      ((∃ slot : Fin maxDrives, (vfs.drives.get slot).IsMounted ∧ (vfs.drives.get slot).blkdev = request.blkdev) ∨
        (∀ slot : Fin maxDrives, (vfs.drives.get slot).IsMounted) ∨ request.fs ≠ vfFat16 ∨
        (∃ code last, fatDriverCreate platform (request.devAt request.blkdev) world = .ok (.error code, last)) →
          id = 0) := by
  have ok := mount_reachable_ok reached
  have here : TableOk { vfs with world } := ok.congr rfl
  refine ⟨ok.unique, vfsMount_returns succeeds _ _ _ _, fun id after returned =>
    ⟨fun mounted => ?_, fun failed => ?_, fun reasons => ?_⟩⟩
  · obtain ⟨_, _, slot, into⟩ := vfsMount_into returned mounted
    have number := into.number
    have bound : (slot : Nat) < 255 := slot.isLt
    have reported := (here.mount returned).getMountFs into.mounted
    rw [into.device, into.fileSystem] at reported
    exact ⟨by omega, ⟨slot, into.number, into.free, into.mounted, into.device, into.fileSystem, into.others⟩, reported⟩
  · rcases vfsMount_cases returned with ⟨_, same, _⟩ | ⟨slot, _, _, _, _, _, number, _⟩
    · exact same
    · omega
  · refine vfsMount_refused returned ?_
    rcases reasons with ⟨slot, mounted, same⟩ | full | unknown | ⟨code, last, failed⟩
    · exact .alreadyMounted fun null => here.getMountFs_null.mp null slot mounted same
    · exact .noSlot (vfsFindSlot_none.mpr full)
    · exact .unknownFs unknown
    · exact .rejected code last failed

end

theorem bootMount_small : ∃ after,
    vfsMount .zeroed (fun _ => smallDisk) { drives := bootDrives, world := () } 0x1000 vfFat16 = .ok (1, after) := by
  have unmounted : vfsGetMountFs { drives := (bootDrives : Vector (Drive Unit) maxDrives), world := () }
      0x1000 = vfNull :=
    (TableOk.boot rfl).getMountFs_null.mpr fun slot mounted => absurd mounted (bootDrives_unmounted slot)
  have first : vfsFindSlot { drives := (bootDrives : Vector (Drive Unit) maxDrives), world := () } =
      some ⟨0, by decide⟩ := by
    decide +kernel
  unfold vfsMount
  rw [unmounted, first]
  simp only [ne_eq, not_true_eq_false, if_false, if_true, smallDriver_created, bind, Except.bind]
  exact ⟨_, rfl⟩

theorem vfs_mount_table_small : ∃ after,
    vfsMount .zeroed (fun _ => smallDisk) { drives := bootDrives, world := () } 0x1000 vfFat16 = .ok (1, after) ∧
      vfsGetMountFs after 0x1000 = vfFat16 := by
  obtain ⟨after, returned⟩ := bootMount_small
  have table := vfs_mount_table .zeroed zeroed_succeeds { drives := bootDrives, world := () } (.initial rfl)
    { devAt := fun _ => smallDisk, blkdev := 0x1000, fs := vfFat16 } ()
  exact ⟨after, returned, ((table.2.2 1 after returned).1 Nat.one_ne_zero).2.2⟩

end Bwuhos
