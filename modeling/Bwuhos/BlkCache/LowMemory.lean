import Bwuhos.BlkCache.Reads
import Bwuhos.Kutil.Faults
import Bwuhos.LowMemory

namespace Bwuhos

open Bwuhos.Data Kutil

/-! # Cached reads in the memory of the kernel

A null buffer is memory at address 0, which everyone shares that has one.  The copy to `dst`
faults where the address space ends.
-/

section

variable {World : Type} (space : AddressSpace) (platform : Platform World)

def finishRdLow (cache : BlkCache World) (low : LowMemory) (buf : Buffer) (dst : BitVec 64) (off n : Nat)
    (read : Option (BlkRd World)) (world : World) : Except Stop (CacheRd World × LowMemory) := do
  if ¬space.Spans dst n then .error .outOfBounds
  else
    let bytes ← buf.load (platform.beyond world) off n low
    let copy := some { size := (buf.getD []).length, off, n }
    return ({ ret := 0, dst := bytes, copy, read, cache, world }, low)

/-- Reading across block boundaries, without the cache. -/
def blkCacheRdAcrossLow (cache : BlkCache World) (low : LowMemory) (dst : BitVec 64) (addr n : Nat) (world : World) :
    Except Stop (CacheRd World × LowMemory) := do
  let blkSize := cache.blkdev.blkSize
  let rdBlkCnt := u64 (n + blkSize - 1) / blkSize
  let rdBuf := platform.alloc (u64 (blkSize * rdBlkCnt)) world
  let read := blkdevRd cache.blkdev (addr / blkSize) rdBlkCnt rdBuf.2
  let (filled, low) ← rdBuf.1.store read.data low
  if read.ret ≠ 0 then
    return ({ ret := 1, dst := [], copy := none, read := some read, cache, world := read.world }, low)
  finishRdLow space platform cache low filled dst (addr % blkSize) n (some read) read.world

/-- Reading inside one block. -/
def blkCacheRdWithinLow (cache : BlkCache World) (low : LowMemory) (dst : BitVec 64) (addr n : Nat) (world : World) :
    Except Stop (CacheRd World × LowMemory) := do
  let blkSize := cache.blkdev.blkSize
  let lba := addr / blkSize
  if lba = cache.loadedBlk then finishRdLow space platform cache low cache.buf dst (addr % blkSize) n none world
  else
    let read := blkdevRd cache.blkdev lba 1 world
    let (filled, low) ← cache.buf.store read.data low
    if read.ret ≠ 0 then
      return ({ ret := 1, dst := [], copy := none, read := some read, cache := { cache with buf := filled },
                world := read.world }, low)
    finishRdLow space platform { cache with buf := filled, loadedBlk := lba } low filled dst (addr % blkSize) n
      (some read) read.world

def blkCacheRdLow (cache : BlkCache World) (low : LowMemory) (dst : BitVec 64) (addr n : Nat) (world : World) :
    Except Stop (CacheRd World × LowMemory) :=
  if n = 0 then .ok ({ ret := 0, dst := [], copy := none, read := none, cache, world }, low)
  else if cache.blkdev.blkSize = 0 then .error .divByZero
  else if addr / cache.blkdev.blkSize ≠ u64 (addr + n - 1) / cache.blkdev.blkSize then
    blkCacheRdAcrossLow space platform cache low dst addr n world
  else blkCacheRdWithinLow space platform cache low dst addr n world

end

section Calls

variable {World : Type} {space : AddressSpace} {platform : Platform World} {dev : Blkdev World}
  {contents : Nat → List UInt8} {cache : BlkCache World} {low after : LowMemory} {dst : BitVec 64} {addr n : Nat}
  {world : World} {result : CacheRd World}

theorem finishRd_low {buf : Buffer} {off : Nat} {read : Option (BlkRd World)} (low : LowMemory)
    (spans : space.Spans dst n) (returned : finishRd platform cache buf off n read world = .ok result) :
    finishRdLow space platform cache low buf dst off n read world = .ok (result, low) := by
  obtain ⟨bytes, copied, finished⟩ := bind_eq_ok returned
  cases finished
  rw [finishRdLow, if_neg (not_not.mpr spans), Buffer.load_copied low copied]
  rfl

/-- What a read across blocks does, once it is known what it was given and what it has read. -/
theorem blkCacheRdAcrossLow_stored {rdBuf filled : Buffer} {next : World}
    (given : platform.alloc (u64 (cache.blkdev.blkSize *
      (u64 (n + cache.blkdev.blkSize - 1) / cache.blkdev.blkSize))) world = (rdBuf, next))
    {read : BlkRd World} (reads : blkdevRd cache.blkdev (addr / cache.blkdev.blkSize)
      (u64 (n + cache.blkdev.blkSize - 1) / cache.blkdev.blkSize) next = read)
    (stored : rdBuf.store read.data low = .ok (filled, after)) :
    blkCacheRdAcrossLow space platform cache low dst addr n world =
      if read.ret ≠ 0 then
        .ok ({ ret := 1, dst := [], copy := none, read := some read, cache, world := read.world }, after)
      else
        finishRdLow space platform cache after filled dst (addr % cache.blkdev.blkSize) n (some read) read.world := by
  unfold blkCacheRdAcrossLow
  dsimp only
  rw [given, reads, stored]
  rfl

theorem blkCacheRdWithinLow_stored {filled : Buffer} (miss : addr / cache.blkdev.blkSize ≠ cache.loadedBlk)
    {read : BlkRd World} (reads : blkdevRd cache.blkdev (addr / cache.blkdev.blkSize) 1 world = read)
    (stored : cache.buf.store read.data low = .ok (filled, after)) :
    blkCacheRdWithinLow space platform cache low dst addr n world =
      if read.ret ≠ 0 then
        .ok ({ ret := 1, dst := [], copy := none, read := some read, cache := { cache with buf := filled },
               world := read.world }, after)
      else finishRdLow space platform { cache with buf := filled, loadedBlk := addr / cache.blkdev.blkSize } after
        filled dst (addr % cache.blkdev.blkSize) n (some read) read.world := by
  unfold blkCacheRdWithinLow
  dsimp only
  rw [if_neg miss, reads, stored]
  rfl

/-- The answer of the device decides the same in both. -/
theorem answered_low {failed : CacheRd World} {buf : Buffer} {off status : Nat} {read : Option (BlkRd World)}
    (low : LowMemory) (spans : space.Spans dst n)
    (returned : (if status ≠ 0 then .ok failed else finishRd platform cache buf off n read world) = .ok result) :
    (if status ≠ 0 then .ok (failed, low) else finishRdLow space platform cache low buf dst off n read world) =
      .ok (result, low) := by
  split at returned
  · next failure =>
      cases returned
      exact if_pos failure
  · next success => exact (if_neg success).trans (finishRd_low low spans returned)

theorem blkCacheRdAcross_low (low : LowMemory) (spans : space.Spans dst n)
    (returned : blkCacheRdAcross platform cache addr n world = .ok result) :
    blkCacheRdAcrossLow space platform cache low dst addr n world = .ok (result, low) := by
  obtain ⟨filled, written, rest⟩ := bind_eq_ok returned
  rw [blkCacheRdAcrossLow_stored rfl rfl (Buffer.store_written low written)]
  exact answered_low low spans rest

theorem blkCacheRdWithin_low (low : LowMemory) (spans : space.Spans dst n)
    (returned : blkCacheRdWithin platform cache addr n world = .ok result) :
    blkCacheRdWithinLow space platform cache low dst addr n world = .ok (result, low) := by
  unfold blkCacheRdWithin at returned
  dsimp only at returned
  by_cases hit : addr / cache.blkdev.blkSize = cache.loadedBlk
  · rw [if_pos hit] at returned
    rw [blkCacheRdWithinLow, if_pos hit]
    exact finishRd_low low spans returned
  · rw [if_neg hit] at returned
    obtain ⟨filled, written, rest⟩ := bind_eq_ok returned
    rw [blkCacheRdWithinLow_stored hit rfl (Buffer.store_written low written)]
    exact answered_low low spans rest

theorem finishRdLow_ok {buf : Buffer} {off : Nat} {read : Option (BlkRd World)}
    (returned : finishRdLow space platform cache low buf dst off n read world = .ok (result, after)) :
    space.Spans dst n ∧ result.ret = 0 ∧ result.cache = cache ∧ after = low ∧
      buf.load (platform.beyond world) off n low = .ok result.dst := by
  unfold finishRdLow at returned
  split at returned
  · cases returned
  · next spans =>
      obtain ⟨bytes, copied, finished⟩ := bind_eq_ok returned
      cases finished
      exact ⟨not_not.mp spans, rfl, rfl, rfl, copied⟩

/-- After the device, a call that returns 0 has got to the copy. -/
theorem finishRdLow_served {failed : CacheRd World} {buf : Buffer} {off status : Nat} {read : Option (BlkRd World)}
    {middle : LowMemory} (lost : failed.ret ≠ 0)
    (returned : (if status ≠ 0 then .ok (failed, middle)
      else finishRdLow space platform cache middle buf dst off n read world) = .ok (result, after))
    (served : result.ret = 0) : space.Spans dst n := by
  split at returned
  · cases returned
    exact absurd served lost
  · exact (finishRdLow_ok returned).1

/-- Every path that returns 0 has copied all bytes to the destination. -/
theorem blkCacheRdLow_spans (returned : blkCacheRdLow space platform cache low dst addr n world = .ok (result, after))
    (served : result.ret = 0) : space.Spans dst n := by
  unfold blkCacheRdLow at returned
  split at returned
  · next empty =>
      rw [empty]
      exact AddressSpace.spans_zero
  · split at returned
    · cases returned
    · split at returned
      · obtain ⟨⟨filled, middle⟩, _, rest⟩ := bind_eq_ok returned
        exact finishRdLow_served Nat.one_ne_zero rest served
      · unfold blkCacheRdWithinLow at returned
        dsimp only at returned
        split at returned
        · exact (finishRdLow_ok returned).1
        · obtain ⟨⟨filled, middle⟩, _, rest⟩ := bind_eq_ok returned
          exact finishRdLow_served Nat.one_ne_zero rest served

/-- A call that returns without touching null returns the same in the memory of the kernel, as
far as it can access its destination. -/
theorem blkCacheRd_low (low : LowMemory) (spans : space.Spans dst n)
    (returned : blkCacheRd platform cache addr n world = .ok result) :
    blkCacheRdLow space platform cache low dst addr n world = .ok (result, low) := by
  unfold blkCacheRd at returned
  unfold blkCacheRdLow
  by_cases empty : n = 0
  · rw [if_pos empty] at returned ⊢
    cases returned
    rfl
  · rw [if_neg empty] at returned ⊢
    by_cases unsized : cache.blkdev.blkSize = 0
    · rw [if_pos unsized] at returned
      cases returned
    · rw [if_neg unsized] at returned ⊢
      by_cases path : addr / cache.blkdev.blkSize ≠ u64 (addr + n - 1) / cache.blkdev.blkSize
      · rw [if_pos path] at returned ⊢
        exact blkCacheRdAcross_low low spans returned
      · rw [if_neg path] at returned ⊢
        exact blkCacheRdWithin_low low spans returned

end Calls

end Bwuhos
