import Bwuhos.Kdef
import Bwuhos.Buffer

namespace Bwuhos

open Bwuhos.Data

/-! # Block devices

`blkdev.c`, without its mutexes.  The driver of a device and all that is outside the
storage code act on a `World`, about which nothing is assumed.
-/

def blkdevMaxParts : Nat := 32

def maxBlkdevCnt : Nat := 512

inductive BlkdevDevType where
  | null
  | diskDrive
deriving Repr, DecidableEq

inductive BlkdevDriver where
  | null
  | ataPio
deriving Repr, DecidableEq

def bfPart : Nat := 0x1

/-- What a read callback returns, and the bytes it has put in the buffer by then. -/
structure RdAnswer where
  ret : Int
  data : List UInt8
deriving Repr, DecidableEq

/-- `struct blkdev`.  The driver's data is part of the callbacks. -/
structure Blkdev (World : Type) where
  rd : (src n : Nat) → World → RdAnswer × World
  wr : (dst : Nat) → (src : List UInt8) → (n : Nat) → World → Int × World
  partBase : Nat
  flags : Nat
  devType : BlkdevDevType
  driver : BlkdevDriver
  blkSize : Nat
  nblk : Nat

/-- A device and the array of its partitions, whose pointer may be null. -/
structure BlkNode (World : Type) where
  dev : Blkdev World
  children : Option (List (Blkdev World))

/-- A device that `blkdevs[which]` or `blkdevs[which].children[part]` stands for. -/
inductive BlkTarget where
  | whole (which : Nat)
  | part (which child : Nat)
deriving Repr, DecidableEq

/-- A call of a read callback: the blocks it was asked for and its answer. -/
structure RdCall where
  addr : Nat
  n : Nat
  answer : RdAnswer
deriving Repr, DecidableEq

/-- What `blkdev_rd` returns, and the call of the callback if it made one. -/
structure BlkRd (World : Type) where
  ret : Nat
  call : Option RdCall
  world : World

structure WrCall where
  addr : Nat
  n : Nat
  ret : Int
deriving Repr, DecidableEq

structure BlkWr (World : Type) where
  ret : Nat
  call : Option WrCall
  world : World

section

variable {World : Type}

/-- The block of the underlying device that stands for a block of `dev`. -/
def Blkdev.addr (dev : Blkdev World) (blk : Nat) : Nat :=
  if dev.flags &&& bfPart = 0 then blk else u64 (blk + dev.partBase)

def blkdevRd (dev : Blkdev World) (src n : Nat) (world : World) : BlkRd World :=
  if u64 (src + n) > dev.nblk then { ret := 1, call := none, world }
  else
    -- the result of the callback is not looked at, here and in `blkdev_wr`
    let answer := dev.rd (dev.addr src) n world
    { ret := 0, call := some { addr := dev.addr src, n, answer := answer.1 }, world := answer.2 }

def blkdevWr (dev : Blkdev World) (dst : Nat) (src : List UInt8) (n : Nat) (world : World) : BlkWr World :=
  if u64 (dst + n) > dev.nblk then { ret := 1, call := none, world }
  else
    let answer := dev.wr (dev.addr dst) src n world
    { ret := 0, call := some { addr := dev.addr dst, n, ret := answer.1 }, world := answer.2 }

def BlkRd.data (read : BlkRd World) : List UInt8 := (read.call.map fun call => call.answer.data).getD []

def blkdevSize : Nat := 96

def blkdevCreate (platform : Platform World) (rd : (src n : Nat) → World → RdAnswer × World)
    (wr : (dst : Nat) → (src : List UInt8) → (n : Nat) → World → Int × World) (devType : BlkdevDevType)
    (driver : BlkdevDriver) (flags blkSize nblk : Nat) (world : World) : BlkNode World × World :=
  let children := platform.alloc (blkdevSize * blkdevMaxParts) world
  ({ dev := { rd, wr, partBase := 0, flags, devType, driver, blkSize, nblk }
     children := children.1.map fun _ => [] }, children.2)

def blkdevRegister (blkdevs : List (BlkNode World)) (blkdev : BlkNode World) :
    Option (BlkNode World) × List (BlkNode World) :=
  if blkdevs.length ≥ maxBlkdevCnt then (none, blkdevs) else (some blkdev, blkdevs ++ [blkdev])

/-- The new partition, if there is one, and the device afterwards. -/
def blkdevMkPart (node : BlkNode World) (base limit : Nat) :
    Except Stop (Option (Blkdev World) × BlkNode World) :=
  if node.dev.flags &&& bfPart ≠ 0 then .ok (none, node)
  else if (node.children.getD []).length ≥ blkdevMaxParts then .ok (none, node)
  else if u64 (base + limit) > node.dev.nblk then .ok (none, node)
  else
    match node.children with
    | none => .error .nullDeref
    | some children =>
        let part := { node.dev with partBase := base, flags := node.dev.flags ||| bfPart, nblk := limit }
        .ok (some part, { node with children := some (children ++ [part]) })

end

def memoryDisk (contents : Nat → List UInt8) (nblk : Nat) : Blkdev Unit where
  rd src n world := ({ ret := 0, data := (List.range' src n).flatMap contents }, world)
  wr _ _ _ world := (1, world)
  partBase := 0
  flags := 0
  devType := .diskDrive
  driver := .ataPio
  blkSize := 512
  nblk := nblk

end Bwuhos
