import Bwuhos.Blkdev

namespace Bwuhos

open Bwuhos.Data

/-! # Cached reads of bytes

`blk_cache.c`, without its mutex.  A read reports the `blkdev_rd` and the `ku_memcpy` it
has made besides its result.
-/

structure BlkCache (World : Type) where
  blkdev : Blkdev World
  buf : Buffer
  loadedBlk : Nat

/-- A `ku_memcpy` out of a buffer of the given size. -/
structure MemCopy where
  size : Nat
  off : Nat
  n : Nat
deriving Repr, DecidableEq

def MemCopy.Inside (copy : MemCopy) : Prop := copy.off + copy.n ≤ copy.size

/-- What `blk_cache_rd` returns and copies to `dst`, and what it did to get there. -/
structure CacheRd (World : Type) where
  ret : Nat
  dst : List UInt8
  copy : Option MemCopy
  read : Option (BlkRd World)
  cache : BlkCache World
  world : World

section

variable {World : Type}

def blkCacheCreate (platform : Platform World) (blkdev : Blkdev World) (world : World) : BlkCache World × World :=
  let buf := platform.alloc blkdev.blkSize world
  ({ blkdev, buf := buf.1, loadedBlk := blkdev.nblk }, buf.2)

def finishRd (platform : Platform World) (cache : BlkCache World) (buf : Buffer) (off n : Nat)
    (read : Option (BlkRd World)) (world : World) : Except Stop (CacheRd World) := do
  let dst ← buf.memcpy (platform.beyond world) off n
  return { ret := 0, dst, copy := some { size := (buf.getD []).length, off, n }, read, cache, world }

/-- Reading across block boundaries, without the cache. -/
def blkCacheRdAcross (platform : Platform World) (cache : BlkCache World) (addr n : Nat) (world : World) :
    Except Stop (CacheRd World) := do
  let blkSize := cache.blkdev.blkSize
  -- the offset of `addr` in its first block does not count
  let rdBlkCnt := u64 (n + blkSize - 1) / blkSize
  let rdBuf := platform.alloc (u64 (blkSize * rdBlkCnt)) world
  let read := blkdevRd cache.blkdev (addr / blkSize) rdBlkCnt rdBuf.2
  let filled ← rdBuf.1.write read.data
  if read.ret ≠ 0 then return { ret := 1, dst := [], copy := none, read := some read, cache, world := read.world }
  finishRd platform cache filled (addr % blkSize) n (some read) read.world

/-- Reading inside one block, which is loaded into the cache first if it is not there. -/
def blkCacheRdWithin (platform : Platform World) (cache : BlkCache World) (addr n : Nat) (world : World) :
    Except Stop (CacheRd World) := do
  let blkSize := cache.blkdev.blkSize
  let lba := addr / blkSize
  if lba = cache.loadedBlk then finishRd platform cache cache.buf (addr % blkSize) n none world
  else
    let read := blkdevRd cache.blkdev lba 1 world
    let filled ← cache.buf.write read.data
    -- what the callback has written by then stays in the buffer
    if read.ret ≠ 0 then
      return { ret := 1, dst := [], copy := none, read := some read, cache := { cache with buf := filled },
               world := read.world }
    finishRd platform { cache with buf := filled, loadedBlk := lba } filled (addr % blkSize) n (some read) read.world

def blkCacheRd (platform : Platform World) (cache : BlkCache World) (addr n : Nat) (world : World) :
    Except Stop (CacheRd World) :=
  if n = 0 then .ok { ret := 0, dst := [], copy := none, read := none, cache, world }
  else if cache.blkdev.blkSize = 0 then .error .divByZero
  else if addr / cache.blkdev.blkSize ≠ u64 (addr + n - 1) / cache.blkdev.blkSize then
    blkCacheRdAcross platform cache addr n world
  else blkCacheRdWithin platform cache addr n world

end

end Bwuhos
