import Bwuhos.BlkCache.Bounds
import Bwuhos.BlkCache.LowMemory

namespace Bwuhos

open Bwuhos.Data Kutil

/-! # The cache after any history

What is recorded as loaded is in the buffer, unless the buffer is null and so is that of a read
across blocks: then both are the memory at address 0.
-/

structure LowCache (World : Type) where
  cache : BlkCache World
  low : LowMemory

/-- While a block is recorded as loaded, a read across blocks that the device accepts has null for
its buffer, and so has the cache. -/
def SharesNull {World : Type} (platform : Platform World) (cache : BlkCache World) (addr n : Nat) (world : World) :
    Prop :=
  let blkSize := cache.blkdev.blkSize
  let rdBlkCnt := u64 (n + blkSize - 1) / blkSize
  cache.loadedBlk < cache.blkdev.nblk ∧ cache.buf = none ∧ n ≠ 0 ∧ addr / blkSize ≠ u64 (addr + n - 1) / blkSize ∧
    (platform.alloc (u64 (blkSize * rdBlkCnt)) world).1 = none ∧ u64 (addr / blkSize + rdBlkCnt) ≤ cache.blkdev.nblk

/-- A cache that tells the truth about the block in its buffer. -/
structure Truthful {World : Type} (cache : BlkCache World) (low : LowMemory) (dev : Blkdev World)
    (contents : Nat → List UInt8) : Prop where
  blkdev : cache.blkdev = dev
  sized : (cache.buf.bytes low dev.blkSize).length = dev.blkSize
  loaded : cache.loadedBlk < dev.nblk → cache.buf.bytes low dev.blkSize = contents cache.loadedBlk

/-- Every byte of the request is in the block. -/
def InsideBlock (blkSize blk addr n : Nat) : Prop :=
  ∀ index < n, blk * blkSize ≤ u64 (addr + index) ∧ u64 (addr + index) < (blk + 1) * blkSize

instance (blkSize blk addr n : Nat) : Decidable (InsideBlock blkSize blk addr n) :=
  inferInstanceAs (Decidable (∀ index < n, _))

section

variable {World : Type} {space : AddressSpace} {platform : Platform World} {dev : Blkdev World}
  {contents : Nat → List UInt8} {cache : BlkCache World} {low after : LowMemory} {dst : BitVec 64}
  {blkSize blk addr n : Nat} {world : World} {result : CacheRd World}

theorem blkdevRd_oneBlock (delivers : Delivers dev contents) (bound : dev.nblk < 2 ^ 64) (existing : blk < dev.nblk)
    (world : World) : (blkdevRd dev blk 1 world).data = contents blk := by
  rw [(delivers.blkdevRd world existing bound).2, List.range'_one, List.flatMap_singleton]

theorem store_refused {buf filled : Buffer} {src count : Nat}
    (stored : buf.store (blkdevRd dev src count world).data low = .ok (filled, after))
    (refused : (blkdevRd dev src count world).ret ≠ 0) : filled = buf ∧ after = low := by
  rw [(blkdevRd_failed rfl refused).2, Buffer.store_nil] at stored
  cases stored
  exact ⟨rfl, rfl⟩

/-- A read across blocks leaves the cache alone, and low memory where its buffer is not null. -/
theorem blkCacheRdAcrossLow_ok
    (returned : blkCacheRdAcrossLow space platform cache low dst addr n world = .ok (result, after)) :
    result.cache = cache ∧ ((acrossRd platform cache addr n world).ret ≠ 0 → after = low) ∧
      ((platform.alloc (u64 (cache.blkdev.blkSize *
        (u64 (n + cache.blkdev.blkSize - 1) / cache.blkdev.blkSize))) world).1 ≠ none → after = low) := by
  obtain ⟨⟨filled, middle⟩, stored, rest⟩ := bind_eq_ok returned
  have same : result.cache = cache ∧ after = middle := by
    dsimp only at rest
    split at rest
    · cases rest
      exact ⟨rfl, rfl⟩
    · obtain ⟨_, _, same, kept, _⟩ := finishRdLow_ok rest
      exact ⟨same, kept⟩
  refine ⟨same.1, fun refused => same.2.trans (store_refused stored refused).2, fun present => same.2.trans ?_⟩
  obtain ⟨held, allocated⟩ := Option.ne_none_iff_exists'.mp present
  rw [allocated] at stored
  exact (@Buffer.store_kept _ _ _ _ _ held.length stored rfl).2 (Option.some_ne_none _)

/-- A read inside a block takes its bytes from the buffer, which it may have loaded before. -/
theorem blkCacheRdWithinLow_ok
    (returned : blkCacheRdWithinLow space platform cache low dst addr n world = .ok (result, after)) :
    (addr / cache.blkdev.blkSize = cache.loadedBlk ∧ result.ret = 0 ∧ result.cache = cache ∧ after = low ∨
      result.ret ≠ 0 ∧ result.cache = cache ∧ after = low ∧
        (blkdevRd cache.blkdev (addr / cache.blkdev.blkSize) 1 world).ret ≠ 0 ∨
      ∃ filled, cache.buf.store (blkdevRd cache.blkdev (addr / cache.blkdev.blkSize) 1 world).data low =
          .ok (filled, after) ∧ result.ret = 0 ∧
        result.cache = { cache with buf := filled, loadedBlk := addr / cache.blkdev.blkSize }) ∧
    (result.ret = 0 → result.cache.loadedBlk = addr / cache.blkdev.blkSize ∧ ∃ world,
      result.cache.buf.load (platform.beyond world) (addr % cache.blkdev.blkSize) n after = .ok result.dst) := by
  unfold blkCacheRdWithinLow at returned
  dsimp only at returned
  split at returned
  · next hit =>
      obtain ⟨_, ret, rfl, rfl, copied⟩ := finishRdLow_ok returned
      exact ⟨Or.inl ⟨hit, ret, rfl, rfl⟩, fun _ => ⟨hit.symm, world, copied⟩⟩
  · obtain ⟨⟨filled, middle⟩, stored, rest⟩ := bind_eq_ok returned
    dsimp only at rest
    split at rest
    · next refused =>
        cases rest
        obtain ⟨rfl, rfl⟩ := store_refused stored refused
        exact ⟨Or.inr (Or.inl ⟨Nat.one_ne_zero, rfl, rfl, refused⟩), fun wrong => absurd wrong Nat.one_ne_zero⟩
    · obtain ⟨_, ret, same, rfl, copied⟩ := finishRdLow_ok rest
      rw [same]
      exact ⟨Or.inr (Or.inr ⟨filled, stored, ret, rfl⟩), fun _ => ⟨rfl, _, copied⟩⟩

theorem Truthful.stored (truthful : Truthful cache low dev contents) (delivers : Delivers dev contents)
    (bound : dev.nblk < 2 ^ 64) {filled : Buffer}
    (stored : cache.buf.store (blkdevRd dev blk 1 world).data low = .ok (filled, after)) :
    Truthful { cache with buf := filled, loadedBlk := blk } after dev contents where
  blkdev := truthful.blkdev
  sized := (Buffer.store_kept stored truthful.sized).1
  loaded := fun existing => by
    rw [blkdevRd_oneBlock delivers bound existing world] at stored
    obtain ⟨full, memory, same, bytes⟩ := Buffer.store_full (delivers.sized blk) truthful.sized
    cases same.symm.trans stored
    exact bytes

theorem Truthful.within (truthful : Truthful cache low dev contents) (delivers : Delivers dev contents)
    (bound : dev.nblk < 2 ^ 64)
    (returned : blkCacheRdWithinLow space platform cache low dst addr n world = .ok (result, after)) :
    Truthful result.cache after dev contents := by
  obtain rfl := truthful.blkdev
  obtain ⟨⟨_, _, same, kept⟩ | ⟨_, same, kept, _⟩ | ⟨filled, stored, _, same⟩, _⟩ := blkCacheRdWithinLow_ok returned
  · rw [same, kept]
    exact truthful
  · rw [same, kept]
    exact truthful
  · rw [same]
    exact truthful.stored delivers bound stored

theorem Truthful.kept (truthful : Truthful cache low dev contents) (delivers : Delivers dev contents)
    (bound : dev.nblk < 2 ^ 64) (apart : ¬SharesNull platform cache addr n world)
    (returned : blkCacheRdLow space platform cache low dst addr n world = .ok (result, after)) :
    Truthful result.cache after dev contents := by
  obtain ⟨rfl, sized, loaded⟩ := truthful
  have unchanged : Truthful cache low cache.blkdev contents := ⟨rfl, sized, loaded⟩
  unfold blkCacheRdLow at returned
  split at returned
  · cases returned
    exact unchanged
  · next nonempty =>
      split at returned
      · cases returned
      · split at returned
        · next path =>
            obtain ⟨same, refused, present⟩ := blkCacheRdAcrossLow_ok returned
            rw [same]
            -- the buffer changes only where the cache and the read share null
            by_cases null : cache.buf = none
            · refine ⟨rfl, by rw [null]; exact Buffer.bytes_null _ _, fun existing => ?_⟩
              have kept : after = low := by
                by_contra changed
                have accepted := not_not.mp fun failed => changed (refused failed)
                have failed := not_not.mp fun allocated => changed (present allocated)
                have fits := Nat.le_of_not_lt ((not_congr (blkdevRd_ret ..)).mp (not_not.mpr accepted))
                exact apart ⟨existing, null, nonempty, path, failed, fits⟩
              rw [kept]
              exact loaded existing
            · obtain ⟨bytes, buf⟩ := Option.ne_none_iff_exists'.mp null
              rw [buf] at sized loaded
              exact ⟨rfl, by rw [buf]; exact sized, by rw [buf]; exact loaded⟩
        · exact unchanged.within delivers bound returned

theorem InsideBlock.within (inside : InsideBlock blkSize blk addr n) (small : blkSize < 2 ^ 64)
    (address : addr < 2 ^ 64) (nonempty : n ≠ 0) :
    0 < blkSize ∧ addr / blkSize = blk ∧ u64 (addr + n - 1) / blkSize = blk ∧ addr % blkSize + n ≤ blkSize := by
  have first := inside 0 (Nat.pos_of_ne_zero nonempty)
  rw [Nat.add_zero, u64_of_lt address] at first
  have last := inside (n - 1) (by omega)
  rw [← Nat.add_sub_assoc (Nat.pos_of_ne_zero nonempty)] at last
  have positive : 0 < blkSize := by
    rw [Nat.succ_mul] at first
    omega
  have here : addr / blkSize = blk := Nat.div_eq_of_lt_le first.1 first.2
  refine ⟨positive, here, Nat.div_eq_of_lt_le last.1 last.2, ?_⟩
  have split := Nat.div_add_mod' addr blkSize
  rw [here] at split
  apply Nat.le_of_not_lt
  intro beyond
  -- the first byte behind the block, or behind the last address
  obtain fits | wraps := Nat.lt_or_ge (blk * blkSize + blkSize) (2 ^ 64)
  · have behind := inside (blk * blkSize + blkSize - addr) (by omega)
    have edge : addr + (blk * blkSize + blkSize - addr) = blk * blkSize + blkSize := by
      rw [Nat.succ_mul] at first
      omega
    rw [edge, u64_of_lt fits, Nat.succ_mul] at behind
    exact Nat.lt_irrefl _ behind.2
  · have behind := inside (2 ^ 64 - addr) (by omega)
    have edge : u64 (addr + (2 ^ 64 - addr)) = 0 := by
      rw [Nat.add_sub_cancel' (Nat.le_of_lt address)]
      rfl
    rw [edge] at behind
    omega

theorem finishRdLow_returns {buf : Buffer} {off : Nat} {read : Option (BlkRd World)} {bytes : List UInt8}
    (spans : space.Spans dst n) (copied : buf.load (platform.beyond world) off n low = .ok bytes) :
    ∃ returned, finishRdLow space platform cache low buf dst off n read world = .ok returned := by
  rw [finishRdLow, if_neg (not_not.mpr spans), copied]
  exact ⟨_, rfl⟩

/-- Inside a block of the device nothing keeps a read from returning but a fault. -/
theorem Truthful.returns (truthful : Truthful cache low dev contents) (delivers : Delivers dev contents)
    (bound : dev.nblk < 2 ^ 64) (existing : addr / dev.blkSize < dev.nblk)
    (inside : addr % dev.blkSize + n ≤ dev.blkSize) (spans : space.Spans dst n) :
    ∃ returned, blkCacheRdWithinLow space platform cache low dst addr n world = .ok returned := by
  obtain ⟨rfl, sized, _⟩ := truthful
  unfold blkCacheRdWithinLow
  dsimp only
  by_cases hit : addr / cache.blkdev.blkSize = cache.loadedBlk
  · rw [if_pos hit]
    exact finishRdLow_returns spans (Buffer.load_inside sized inside)
  · obtain ⟨ret, _⟩ := delivers.blkdevRd world (n := 1) existing bound
    have data := blkdevRd_oneBlock delivers bound existing world
    obtain ⟨filled, after, stored, bytes⟩ := Buffer.store_full (delivers.sized _) sized
    rw [if_neg hit, data, stored]
    simp only [bind, Except.bind]
    rw [if_neg (not_not.mpr ret)]
    exact finishRdLow_returns spans (Buffer.load_inside (bytes ▸ delivers.sized _) inside)

theorem Truthful.reads (truthful : Truthful cache low dev contents) (delivers : Delivers dev contents)
    (bound : dev.nblk < 2 ^ 64) (existing : addr / dev.blkSize < dev.nblk)
    (inside : addr % dev.blkSize + n ≤ dev.blkSize)
    (returned : blkCacheRdWithinLow space platform cache low dst addr n world = .ok (result, after)) :
    result.ret = 0 ∧ result.dst = ((contents (addr / dev.blkSize)).drop (addr % dev.blkSize)).take n := by
  obtain ⟨_, sized, loaded⟩ := truthful.within delivers bound returned
  obtain rfl := truthful.blkdev
  obtain ⟨outcome, copied⟩ := blkCacheRdWithinLow_ok returned
  have ret : result.ret = 0 := by
    obtain ⟨_, ret, _⟩ | ⟨_, _, _, refused⟩ | ⟨_, _, ret, _⟩ := outcome
    · exact ret
    · exact absurd (delivers.blkdevRd world (n := 1) existing bound).1 refused
    · exact ret
  obtain ⟨same, world, load⟩ := copied ret
  rw [Buffer.load_inside sized inside, loaded (same ▸ existing), same] at load
  exact ⟨ret, (Except.ok.inj load).symm⟩

end

/-- Nothing was allocated for this cache. -/
def nullCache (low : LowMemory) : LowCache Unit :=
  { cache := (blkCacheCreate exhausted (memoryDisk stampBlock 4) ()).1, low }

end Bwuhos
