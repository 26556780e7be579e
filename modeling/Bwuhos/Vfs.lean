import Bwuhos.Fat.File

namespace Bwuhos

/-! # The virtual file system

`vfs.c`.  A block device is known by its address.
-/

def maxDrives : Nat := 255

theorem maxDrives_pos : 0 < maxDrives := by decide

def vfNull : Nat := 0

def vfFat16 : Nat := 1

def dfMounted : Nat := 0x1

/-- `struct drive`.  Its driver is the one for FAT, or there is none and its functions are null. -/
structure Drive (World : Type) where
  driver : Option (FatDriver World)
  blkdev : Nat
  fs : Nat
  flags : Nat

structure VfsFile where
  drive : UInt8
  file : Nat
deriving Repr, DecidableEq

/-- The table `drives`, and all that the devices act on. -/
structure Vfs (World : Type) where
  drives : Vector (Drive World) maxDrives
  world : World

section

variable {World : Type}

/-- The table `drives` at boot. -/
def bootDrives : Vector (Drive World) maxDrives :=
  Vector.replicate maxDrives { driver := none, blkdev := 0, fs := vfNull, flags := 0 }

def Drive.IsMounted (drive : Drive World) : Prop := drive.flags &&& dfMounted ≠ 0

instance : DecidablePred (@Drive.IsMounted World) := fun _ => inferInstanceAs (Decidable (_ ≠ _))

def vfsFindSlot (vfs : Vfs World) : Option (Fin maxDrives) :=
  (List.finRange maxDrives).find? fun slot => ¬(vfs.drives.get slot).IsMounted

def vfsGetMountFs (vfs : Vfs World) (blkdev : Nat) : Nat :=
  match (List.finRange maxDrives).find? fun slot =>
    (vfs.drives.get slot).IsMounted ∧ (vfs.drives.get slot).blkdev = blkdev with
  | none => vfNull
  | some slot => (vfs.drives.get slot).fs

def vfsCntMounted (vfs : Vfs World) : Nat :=
  (List.finRange maxDrives).foldl (fun nmounted slot => nmounted + if (vfs.drives.get slot).IsMounted then 1 else 0) 0

/-- The drive ID; `devAt` is the device at an address. -/
def vfsMount (platform : Platform World) (devAt : Nat → Blkdev World) (vfs : Vfs World) (blkdev fs : Nat) :
    Except Stop (Nat × Vfs World) :=
  if vfsGetMountFs vfs blkdev ≠ vfNull then .ok (0, vfs)
  else
    match vfsFindSlot vfs with
    | none => .ok (0, vfs)
    | some slot =>
        if fs = vfFat16 then do
          let (fsDriver, world) ← fatDriverCreate platform (devAt blkdev) vfs.world
          match fsDriver with
          | .error _ => return (0, { vfs with world })
          | .ok fsDriver =>
              let (driver, world) ← fatVfsFsDriverCreate platform fsDriver world
              let drive := { driver := some driver, blkdev, fs, flags := dfMounted }
              return (slot + 1, { drives := vfs.drives.set slot drive slot.isLt, world })
        else .ok (0, vfs)

/-- What `try_mount_tree` does about one device.  `place` says where the devices of
`blkdevs`, and the partitions in their arrays, lie in memory. -/
def tryMount (platform : Platform World) (place : BlkTarget → Nat) (target : BlkTarget) (dev : Blkdev World)
    (vfs : Vfs World) : Except Stop (Vfs World) :=
  if dev.devType ≠ .diskDrive then .ok vfs
  else do
    let (rejected, world) ← fatVerify platform dev vfs.world
    if rejected ≠ 0 then return { vfs with world }
    let (_, vfs) ← vfsMount platform (fun _ => dev) { vfs with world } (place target) vfFat16
    return vfs

def tryMountParts (platform : Platform World) (place : BlkTarget → Nat) (which : Nat) :
    (child : Nat) → List (Blkdev World) → Vfs World → Except Stop (Vfs World)
  | _, [], vfs => .ok vfs
  | child, part :: rest, vfs => do
      let vfs ← tryMount platform place (.part which child) part vfs
      tryMountParts platform place which (child + 1) rest vfs

/-- `try_mount_tree` of a registered device.  Partitions have no children of their own. -/
def tryMountTree (platform : Platform World) (place : BlkTarget → Nat) (which : Nat) (node : BlkNode World)
    (vfs : Vfs World) : Except Stop (Vfs World) := do
  let vfs ← tryMount platform place (.whole which) node.dev vfs
  tryMountParts platform place which 0 (node.children.getD []) vfs

/-- The loop of `vfs_auto_mount`, from device number `which` on. -/
def autoMountFrom (platform : Platform World) (place : BlkTarget → Nat) :
    (which : Nat) → List (BlkNode World) → Vfs World → Except Stop (Vfs World)
  | _, [], vfs => .ok vfs
  | which, node :: rest, vfs => do
      let vfs ← tryMountTree platform place which node vfs
      autoMountFrom platform place (which + 1) rest vfs

def vfsAutoMount (platform : Platform World) (place : BlkTarget → Nat) (blkdevs : List (BlkNode World))
    (vfs : Vfs World) : Except Stop (Vfs World) :=
  autoMountFrom platform place 0 blkdevs vfs

/-- The drive of a file, whose number is not zero. -/
def VfsFile.slot (file : VfsFile) : Fin maxDrives :=
  ⟨file.drive.toNat - 1, by have bound := file.drive.toNat_lt; simp only [maxDrives]; omega⟩

def Vfs.setDriver (vfs : Vfs World) (slot : Fin maxDrives) (driver : FatDriver World) : Vfs World :=
  { vfs with drives := vfs.drives.set slot { vfs.drives.get slot with driver := some driver } slot.isLt }

/-- What `vfs_close`, `vfs_abs_tell` and `vfs_seek` have in common: the checks of the
handle, and the call of the driver if they succeed. -/
def onOpenFile {Result : Type} (vfs : Vfs World) (file : VfsFile) (rejected : Result)
    (act : FatDriver World → Except Stop Result) : Except Stop Result :=
  if file.drive = 0 ∨ file.file = 0 then .ok rejected
  else
    match (vfs.drives.get file.slot).driver with
    -- `is_open` is a null pointer; `DF_MOUNTED` is not looked at
    | none => .error .nullDeref
    | some driver => do
        let isOpen ← fatVfsIsOpen driver file.file
        if !isOpen then return rejected
        act driver

def vfsClose (vfs : Vfs World) (file : VfsFile) : Except Stop (Nat × Vfs World) :=
  onOpenFile vfs file (1, vfs) fun driver => do
    let (ret, driver) ← fatVfsClose driver file.file
    return (if ret ≠ 0 then 1 else 0, vfs.setDriver file.slot driver)

/-- The result, and `*out_pos` where it is written. -/
def vfsAbsTell (vfs : Vfs World) (file : VfsFile) : Except Stop (Nat × Option Nat) :=
  onOpenFile vfs file (1, none) fun driver => do
    let (ret, pos) ← fatVfsAbsTell driver file.file
    return (if ret ≠ 0 then 1 else 0, some pos)

/-- The member of `enum vfs_whence` with a value. -/
def vfsWhence : Nat → Option VfsWhence
  | 0 => some .start
  | 1 => some .cur
  | 2 => some .end
  | _ => none

def vfsSeek (vfs : Vfs World) (file : VfsFile) (whence : Nat) (off : Int) : Except Stop (Nat × Vfs World) :=
  if file.drive = 0 ∨ file.file = 0 then .ok (1, vfs)
  else
    match vfsWhence whence with
    | none => .ok (1, vfs)
    | some whence => onOpenFile vfs file (1, vfs) fun driver => do
        let (ret, driver) ← fatVfsSeek driver file.file whence off
        return (if ret ≠ 0 then 1 else 0, vfs.setDriver file.slot driver)

/-- What `vfs_rd` returns and copies to `dst`, and the `rd` of the driver that it has called. -/
structure VfsRd (World : Type) where
  ret : Nat
  dst : List UInt8
  read : Option (FileRd World)
  vfs : Vfs World

def vfsRd (platform : Platform World) (vfs : Vfs World) (file : VfsFile) (n : Nat) : Except Stop (VfsRd World) :=
  if file.drive = 0 ∨ file.file = 0 then .ok { ret := 1, dst := [], read := none, vfs }
  else
    match (vfs.drives.get file.slot).driver with
    | none => .error .nullDeref
    | some driver => do
        let isOpen ← fatVfsIsOpen driver file.file
        if !isOpen then return { ret := 1, dst := [], read := none, vfs }
        let read ← fatVfsRd platform { driver, world := vfs.world } file.file n
        let after := { vfs.setDriver file.slot read.state.driver with world := read.state.world }
        return { ret := if read.ret ≠ 0 then 1 else 0, dst := read.dst, read := some read, vfs := after }

end

end Bwuhos
