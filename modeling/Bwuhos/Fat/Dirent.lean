import Bwuhos.Fat

namespace Bwuhos

open Bwuhos.Data

/-! # Directory entries

The functions of `fat.c` that walk a directory.  Each reports, besides its result, where
its walk came to an end.
-/

section

variable {World : Type}

/-- `blk_cache_rd(&driver->blk_cache, rd_buf, de, 32)`, with no bytes where it fails. -/
def readEnt (platform : Platform World) (s : FatState World) (de : Nat) :
    Except Stop (Option (List UInt8) × FatState World) := do
  let rd ← blkCacheRd platform s.driver.blkCache de 32 s.world
  return (if rd.ret ≠ 0 then none else some rd.dst,
    { driver := { s.driver with blkCache := rd.cache }, world := rd.world })

/-- How a walk over directory entries ends: with a return of the function, or at an entry. -/
inductive EntWalk where
  | ret (code : Nat)
  | «at» (pos : Nat)
deriving Repr, DecidableEq

def skipRound (platform : Platform World) (curDeLast : Nat) (s : FatState World) :
    Except Stop ((Nat × FatState World) ⊕ (EntWalk × FatState World)) := do
  let (rdBuf, s) ← readEnt platform s curDeLast
  match rdBuf with
  | none => return .inr (.ret 1, s)
  | some ent =>
      if byteAt ent 0 = 0 then return .inr (.ret 0, s)
      if byteAt ent 0 = 0xe5 then return .inl (u64 (curDeLast + 32), s)
      if direntAttr ent = fdaLfn then return .inl (u64 (curDeLast + 32), s)
      return .inr (.at curDeLast, s)

/-- The first loop of `fat_next_dirent`: skip to the end of the current dirent. -/
def skipDirent (platform : Platform World) (fuel : Nat) (s : FatState World) (curDe : Nat) :
    Except Stop (EntWalk × FatState World) :=
  loop .outOfFuel (fun (curDeLast, s) => skipRound platform curDeLast s) fuel (curDe, s)

def nextRound (platform : Platform World) (curDeLast nextDe : Nat) (s : FatState World) :
    Except Stop ((Nat × FatState World) ⊕ (EntWalk × FatState World)) := do
  -- the source reads at `cur_de_last`, not at the `next_de` that it advances
  let (rdBuf, s) ← readEnt platform s curDeLast
  match rdBuf with
  | none => return .inr (.ret 1, s)
  | some ent =>
      if byteAt ent 0 = 0 then return .inr (.ret 0, s)
      if byteAt ent 0 = 0xe5 then return .inl (u64 (nextDe + 32), s)
      return .inr (.at nextDe, s)

/-- The second loop of `fat_next_dirent`. -/
def nextAfter (platform : Platform World) (fuel : Nat) (s : FatState World) (curDeLast : Nat) :
    Except Stop (EntWalk × FatState World) :=
  loop .outOfFuel (fun (nextDe, s) => nextRound platform curDeLast nextDe s) fuel (u64 (curDeLast + 32), s)

def fatNextDirent (platform : Platform World) (fuel : Nat) (s : FatState World) (curDe : Nat) :
    Except Stop (Nat × FatState World) := do
  let (skipped, s) ← skipDirent platform fuel s curDe
  match skipped with
  | .ret code => return (code, s)
  | .at curDeLast =>
      let (next, s) ← nextAfter platform fuel s curDeLast
      match next with
      | .ret code => return (code, s)
      | .at nextDe => return (nextDe, s)

def putChar (name : List UInt8) (place : Nat × UInt8) : Except Stop (List UInt8) :=
  if place.1 < name.length then .ok (name.set place.1 place.2) else .error .outOfBounds

def overlay (name : List UInt8) (off : Nat) (chars : List UInt8) : List UInt8 :=
  name.take off ++ chars ++ name.drop (off + chars.length)

def beforeSpace (field : List UInt8) : List UInt8 := field.takeWhile (· ≠ 0x20)

/-- The DOS name of a standard entry, written to the start of `name`. -/
def dosName (name ent : List UInt8) : List UInt8 :=
  let base := beforeSpace (ent.take 8)
  let ext := beforeSpace ((ent.drop 8).take 3)
  if base ≠ [] ∧ ext ≠ [] then overlay (overlay (overlay name 0 base) base.length [0x2e]) (base.length + 1) ext
  else if base ≠ [] then overlay name 0 base
  else if ext ≠ [] then overlay name 0 ext
  else name

/-- The `struct fat_dirent_info` for a standard entry with the long name collected so far. -/
def direntInfo (name ent : List UInt8) : FatDirentInfo where
  name := if byteAt name 0 = 0 then dosName name ent else name
  timeMkH := direntTimeMkHms ent &&& 0x1f
  timeMkM := direntTimeMkHms ent >>> 5 &&& 0x3f
  timeMkS := 2 * (direntTimeMkHms ent >>> 11 &&& 0x1f)
  dateMkY := direntTimeMkDate ent &&& 0x7f
  dateMkM := direntTimeMkDate ent >>> 7 &&& 0xf
  dateMkD := direntTimeMkDate ent >>> 11 &&& 0x1f
  dateAccY := direntTimeAccDate ent &&& 0x7f
  dateAccM := direntTimeAccDate ent >>> 7 &&& 0xf
  dateAccD := direntTimeAccDate ent >>> 11 &&& 0x1f
  timeModH := direntTimeModHms ent &&& 0x1f
  timeModM := direntTimeModHms ent >>> 5 &&& 0x3f
  timeModS := 2 * (direntTimeModHms ent >>> 11 &&& 0x1f)
  dateModY := direntTimeModDate ent &&& 0x7f
  dateModM := direntTimeModDate ent >>> 7 &&& 0xf
  dateModD := direntTimeModDate ent >>> 11 &&& 0x1f
  attr := direntAttr ent
  cluster := direntFirstCluster0 ent
  size := direntFileSize ent

def emptyName : List UInt8 := List.replicate 255 0

/-- A standard entry that `fat_get_dirent_info` has read, and where it lies. -/
structure DirentAt where
  pos : Nat
  info : FatDirentInfo
deriving Repr, DecidableEq

def getDirentRound (platform : Platform World) (de : Nat) (name : List UInt8) (s : FatState World) :
    Except Stop ((Nat × List UInt8 × FatState World) ⊕ (Option DirentAt × FatState World)) := do
  let (rdBuf, s) ← readEnt platform s de
  match rdBuf with
  | none => return .inr (none, s)
  | some ent =>
      if byteAt ent 0 = 0 then return .inr (none, s)
      if byteAt ent 0 = 0xe5 then return .inl (u64 (de + 32), name, s)
      if direntAttr ent = fdaLfn then
        let name ← (lfnChars ent).foldlM putChar name
        return .inl (u64 (de + 32), name, s)
      return .inr (some { pos := de, info := direntInfo name ent }, s)

/-- The loop of `fat_get_dirent_info` from an entry on, with the name collected so far. -/
def getDirentLoop (platform : Platform World) (fuel : Nat) (s : FatState World) (de : Nat) (name : List UInt8) :
    Except Stop (Option DirentAt × FatState World) :=
  loop .outOfFuel (fun (de, name, s) => getDirentRound platform de name s) fuel (de, name, s)

/-- The entry whose information `fat_get_dirent_info` returns; none where it fails. -/
def fatGetDirentInfo (platform : Platform World) (fuel : Nat) (s : FatState World) (de : Nat) :
    Except Stop (Option DirentAt × FatState World) :=
  getDirentLoop platform fuel s de emptyName

def toLower (ch : UInt8) : UInt8 := if 0x41 ≤ ch ∧ ch ≤ 0x5a then ch - 0x41 + 0x61 else ch

/-- The comparison of `fat_find_dirent`, which ends at the end of either name. -/
def direntDiff : List UInt8 → List UInt8 → Int
  | a :: name, b :: deName =>
      if a = 0 ∨ b = 0 then 0
      else if (toLower a).toInt8 > (toLower b).toInt8 then 1
      else if (toLower a).toInt8 < (toLower b).toInt8 then -1
      else direntDiff name deName
  | _, _ => 0

/-- What `fat_find_dirent` returns, and the entries it has compared with the name. -/
structure FindResult (World : Type) where
  ret : Nat
  examined : List DirentAt
  state : FatState World

def findRound (platform : Platform World) (fuel : Nat) (name : List UInt8) (de : Nat) (examined : List DirentAt)
    (s : FatState World) : Except Stop ((Nat × List DirentAt × FatState World) ⊕ FindResult World) := do
  let (deInfo, s) ← fatGetDirentInfo platform fuel s de
  match deInfo with
  | none => return .inr { ret := 0, examined, state := s }
  | some dirent =>
      let examined := examined ++ [dirent]
      if direntDiff name dirent.info.name = 0 then return .inr { ret := de, examined, state := s }
      let (next, s) ← fatNextDirent platform fuel s de
      -- an error code 1 is taken for a position
      if next = 0 then return .inr { ret := 0, examined, state := s }
      return .inl (next, examined, s)

def fatFindDirent (platform : Platform World) (fuel : Nat) (s : FatState World) (curDe : Nat) (name : List UInt8) :
    Except Stop (FindResult World) :=
  loop .outOfFuel (fun (de, examined, s) => findRound platform fuel name de examined s) fuel (curDe, [], s)

end

end Bwuhos
