import Bwuhos.Fat

namespace Bwuhos

open Bwuhos.Data

/-! # Master boot records

`mbr.c`.  Fields of `struct mbr` and `struct mbr_ent` by their offsets.
-/

def mbrDiskId (mbr : List UInt8) : Nat := le32 mbr 440

def mbrEntType (mbr : List UInt8) (ent : Nat) : Nat := byteAt mbr (446 + 16 * ent + 4)

def mbrEntStartLba (mbr : List UInt8) (ent : Nat) : Nat := le32 mbr (446 + 16 * ent + 8)

def mbrEntNsector (mbr : List UInt8) (ent : Nat) : Nat := le32 mbr (446 + 16 * ent + 12)

def mbrSig (mbr : List UInt8) : Nat := le16 mbr 510

def mbrVerify (mbr : List UInt8) (diskIds : Option (List Nat)) : Nat :=
  if mbrSig mbr ≠ 0xaa55 then 1
  else
    match diskIds with
    | none => 0
    | some ids => if mbrDiskId mbr ∈ ids then 1 else 0

section

variable {World : Type}

/-- The loop over the entries.  A partition that cannot be created is passed over. -/
def mbrPartition (mbr : List UInt8) : List Nat → BlkNode World → Except Stop (BlkNode World)
  | [], node => .ok node
  | ent :: rest, node =>
      if mbrEntType mbr ent = 0 then mbrPartition mbr rest node
      else do
        let (_, node) ← blkdevMkPart node (mbrEntStartLba mbr ent) (mbrEntNsector mbr ent)
        mbrPartition mbr rest node

def mbrFindOn (platform : Platform World) (node : BlkNode World) (world : World) :
    Except Stop (BlkNode World × World) :=
  if node.dev.devType ≠ .diskDrive then .ok (node, world)
  else if node.dev.blkSize ≠ 512 then .ok (node, world)
  else do
    -- `struct mbr` lies on the stack and is as long as a boot sector
    let (ret, mbr, world) ← readBootSector platform node.dev world
    if ret ≠ 0 then return (node, world)
    if mbrVerify mbr none ≠ 0 then return (node, world)
    let node ← mbrPartition mbr (List.range 4) node
    return (node, world)

def mbrFind (platform : Platform World) : List (BlkNode World) → World → Except Stop (List (BlkNode World) × World)
  | [], world => .ok ([], world)
  | node :: rest, world => do
      let (node, world) ← mbrFindOn platform node world
      let (rest, world) ← mbrFind platform rest world
      return (node :: rest, world)

end

end Bwuhos
