import Bwuhos.Fat.Dirent

namespace Bwuhos

open Bwuhos.Data

/-! # Files

The functions of `fat.c` that the VFS calls.  A path is the list of its characters.
-/

section

variable {World : Type}

def fatDriverSize : Nat := 4184

/-- The `driver_data` of the new VFS driver, a copy of `*driver`. -/
def fatVfsFsDriverCreate (platform : Platform World) (driver : FatDriver World) (world : World) :
    Except Stop (FatDriver World × World) :=
  match (platform.alloc fatDriverSize world).1 with
  | none => .error .nullDeref
  | some _ => .ok (driver, (platform.alloc fatDriverSize world).2)

def fatGetRoot (driver : FatDriver World) : Nat :=
  u64 (driver.sectorSize * u64Sub driver.firstDataSector driver.rootSectorCnt)

def clusterToPos (driver : FatDriver World) (cluster : Nat) : Nat :=
  let sectorOff := u64 (u64Sub cluster 2 * driver.clusterSize)
  u64 (driver.sectorSize * u64 (driver.firstDataSector + sectorOff))

def FatFileDesc.IsOpen (fd : FatFileDesc) : Prop := fd.flags &&& ffdfOpen ≠ 0

instance : DecidablePred FatFileDesc.IsOpen := fun _ => inferInstanceAs (Decidable (_ ≠ _))

/-- The index of the descriptor `file_descs[fid - 1]`. -/
def fdIndex (fid : Nat) : Except Stop (Fin fatMaxFileDescs) :=
  if inside : u64Sub fid 1 < fatMaxFileDescs then .ok ⟨u64Sub fid 1, inside⟩ else .error .outOfBounds

def FatDriver.setDesc (driver : FatDriver World) (slot : Fin fatMaxFileDescs) (fd : FatFileDesc) : FatDriver World :=
  { driver with fileDescs := driver.fileDescs.set slot fd slot.isLt }

def findSlot (driver : FatDriver World) : Option (Fin fatMaxFileDescs) :=
  (List.finRange fatMaxFileDescs).find? fun slot => ¬(driver.fileDescs.get slot).IsOpen

def fatVfsIsOpen (driver : FatDriver World) (fid : Nat) : Except Stop Bool := do
  let slot ← fdIndex fid
  return decide (driver.fileDescs.get slot).IsOpen

/-- A component of a path in the directory at `de`: `fat_find_dirent`, then
`fat_get_dirent_info`.  There is no result where either fails. -/
def enterDirent (platform : Platform World) (fuel : Nat) (s : FatState World) (de : Nat) (pathBuf : List UInt8) :
    Except Stop (Option FatDirentInfo × FatState World) := do
  let found ← fatFindDirent platform fuel s de pathBuf
  if found.ret = 0 then return (none, found.state)
  let (deInfo, s) ← fatGetDirentInfo platform fuel found.state found.ret
  return (deInfo.map DirentAt.info, s)

/-- The locals of `fat_vfs_open`: `path_buf` up to `path_len`, and `de_info`. -/
structure PathWalk where
  de : Nat
  deInfo : FatDirentInfo
  pathBuf : List UInt8

/-- The loop of `fat_vfs_open` over the characters of the path.  There is no result where
the function returns `VFS_FILE_ID_NULL`. -/
def walkPath (platform : Platform World) (fuel : Nat) :
    List UInt8 → PathWalk → FatState World → Except Stop (Option PathWalk × FatState World)
  | [], walk, s => .ok (some walk, s)
  | ch :: path, walk, s =>
      -- `path_buf[path_len]` is written, with the character or with a zero
      if walk.pathBuf.length ≥ 256 then .error .outOfBounds
      else if ch ≠ 0x2f then walkPath platform fuel path { walk with pathBuf := walk.pathBuf ++ [ch] } s
      else if walk.pathBuf = [] then walkPath platform fuel path walk s
      else do
        let (entered, s) ← enterDirent platform fuel s walk.de walk.pathBuf
        match entered with
        | none => return (none, s)
        | some deInfo =>
            -- one slash may follow the name of a file
            if deInfo.attr &&& fdaDir = 0 ∧ path ≠ [] then return (none, s)
            walkPath platform fuel path { de := clusterToPos s.driver deInfo.cluster, deInfo, pathBuf := [] } s

/-- The end of `fat_vfs_open`: check the entry and take a slot for it. -/
def openDirent (s : FatState World) (deInfo : FatDirentInfo) (flags : Nat) : Nat × FatState World :=
  if deInfo.attr &&& fdaDir ≠ 0 then (0, s)
  else if flags &&& vffWrite ≠ 0 ∧ deInfo.attr &&& fdaRo ≠ 0 then (0, s)
  else
    match findSlot s.driver with
    | none => (0, s)
    | some slot =>
        let fd := {
          cluster := deInfo.cluster
          size := deInfo.size
          filePos := 0
          flags := ffdfOpen ||| (if flags &&& vffRead ≠ 0 then ffdfRead else 0) |||
            if flags &&& vffWrite ≠ 0 then ffdfWrite else 0 }
        (slot + 1, { s with driver := s.driver.setDesc slot fd })

/-- `de_info` is what that local holds before anything is stored in it. -/
def fatVfsOpen (platform : Platform World) (fuel : Nat) (deInfo : FatDirentInfo) (s : FatState World)
    (path : List UInt8) (flags : Nat) : Except Stop (Nat × FatState World) := do
  let (walked, s) ← walkPath platform fuel path { de := fatGetRoot s.driver, deInfo, pathBuf := [] } s
  match walked with
  | none => return (0, s)
  | some walk =>
      if walk.pathBuf = [] then return openDirent s walk.deInfo flags
      if walk.pathBuf.length ≥ 256 then .error .outOfBounds
      else
        let (entered, s) ← enterDirent platform fuel s walk.de walk.pathBuf
        match entered with
        | none => return (0, s)
        | some deInfo => return openDirent s deInfo flags

def fatVfsClose (driver : FatDriver World) (fid : Nat) : Except Stop (Nat × FatDriver World) := do
  let slot ← fdIndex fid
  return (0, driver.setDesc slot .zero)

/-- The result and `*out`. -/
def fatVfsAbsTell (driver : FatDriver World) (fid : Nat) : Except Stop (Nat × Nat) := do
  let slot ← fdIndex fid
  return (0, (driver.fileDescs.get slot).filePos)

/-- The descriptor after a seek.  Where `off` is compared with a `size_t` it is compared
as one. -/
def FatFileDesc.seek (fd : FatFileDesc) (whence : VfsWhence) (off : Int) : FatFileDesc :=
  match whence with
  | .start =>
      let off := if off < 0 then 0 else off
      let off := toS64 (if toU64 off > fd.size then fd.size else toU64 off)
      { fd with filePos := toU64 off }
  | .cur =>
      let off := if off < -toS64 fd.filePos then -toS64 fd.filePos else off
      -- a negative offset is larger than any size here
      let off := toS64 (if toU64 off > u64Sub fd.size fd.filePos then u64Sub fd.size fd.filePos else toU64 off)
      { fd with filePos := u64 (fd.filePos + toU64 off) }
  | .end =>
      let off := if off < -toS64 fd.size then -toS64 fd.size else off
      let off := if off > 0 then 0 else off
      { fd with filePos := u64 (fd.size + toU64 off) }

def fatVfsSeek (driver : FatDriver World) (fid : Nat) (whence : VfsWhence) (off : Int) :
    Except Stop (Nat × FatDriver World) := do
  let slot ← fdIndex fid
  return (0, driver.setDesc slot ((driver.fileDescs.get slot).seek whence off))

/-- What `fat_vfs_rd` returns and copies to `dst`, and the `blk_cache_rd` it has made. -/
structure FileRd (World : Type) where
  ret : Nat
  dst : List UInt8
  read : Option (CacheRd World)
  state : FatState World

def fatVfsRd (platform : Platform World) (s : FatState World) (fid n : Nat) : Except Stop (FileRd World) := do
  let slot ← fdIndex fid
  let fd := s.driver.fileDescs.get slot
  if fd.filePos ≥ fd.size then return { ret := 1, dst := [], read := none, state := s }
  -- the sum can wrap; `file_pos` does not move, and `FFDF_READ` is not asked for
  if u64 (fd.filePos + n) > fd.size then return { ret := 1, dst := [], read := none, state := s }
  let rdPos := u64 (clusterToPos s.driver fd.cluster + fd.filePos)
  let rd ← blkCacheRd platform s.driver.blkCache rdPos n s.world
  let after := { driver := { s.driver with blkCache := rd.cache }, world := rd.world }
  return { ret := if rd.ret ≠ 0 then 1 else 0, dst := rd.dst, read := some rd, state := after }

end

end Bwuhos
