import Bwuhos.BlkCache.Reads

namespace Bwuhos

open Bwuhos.Data

/-! # Requests behind the end of the device

`blk_cache_rd` does not look at the range of a request itself.  It is `blkdev_rd` that
rejects blocks, on the calls that get there and with the block count they hand over.
-/

section

variable {World : Type}

/-- What a caller may expect of the range of a request. -/
structure RangeRespected (platform : Platform World) (cache : BlkCache World) (addr n : Nat)
    (world : World) : Prop where
  accepted : ∀ result, blkCacheRd platform cache addr n world = .ok result → result.ret = 0 →
    addr + n ≤ cache.blkdev.nblk * cache.blkdev.blkSize
  refused : cache.blkdev.nblk * cache.blkdev.blkSize < addr + n →
    ∃ result, blkCacheRd platform cache addr n world = .ok result ∧ result.ret ≠ 0 ∧
      result.cache.loadedBlk = cache.loadedBlk ∧ result.cache.buf = cache.buf

/-- The blocks that the request makes `blk_cache_rd` ask the device for, in 64 bits, run
over its end: the block of `addr` alone if that is also the block of the last byte and is
not recorded as loaded, else as many blocks as `n` bytes fill. -/
def BlocksRunOver (cache : BlkCache World) (addr n : Nat) : Prop :=
  let blkSize := cache.blkdev.blkSize
  blkSize ≠ 0 ∧
    if addr / blkSize = u64 (addr + n - 1) / blkSize then
      addr / blkSize ≠ cache.loadedBlk ∧ cache.blkdev.nblk < u64 (addr / blkSize + 1)
    else cache.blkdev.nblk < u64 (addr / blkSize + u64 (n + blkSize - 1) / blkSize)

instance (cache : BlkCache World) (addr n : Nat) : Decidable (BlocksRunOver cache addr n) :=
  inferInstanceAs (Decidable (_ ∧ ite _ _ _))

variable {platform : Platform World} {dev : Blkdev World} {cache : BlkCache World} {addr n : Nat} {world : World}

theorem blkdevRd_ret (dev : Blkdev World) (src n : Nat) (world : World) :
    (blkdevRd dev src n world).ret ≠ 0 ↔ dev.nblk < u64 (src + n) := by
  unfold blkdevRd
  split
  · next rejected => exact iff_of_true Nat.one_ne_zero rejected
  · next accepted => exact iff_of_false (not_not.mpr rfl) accepted

theorem blkCacheRdAcross_refused_iff : (∃ result, blkCacheRdAcross platform cache addr n world = .ok result ∧
      result.ret ≠ 0 ∧ result.cache = cache) ↔
    cache.blkdev.nblk <
      u64 (addr / cache.blkdev.blkSize + u64 (n + cache.blkdev.blkSize - 1) / cache.blkdev.blkSize) := by
  have rejected : (acrossRd platform cache addr n world).ret ≠ 0 ↔ _ := blkdevRd_ret _ _ _ _
  rw [← rejected]
  constructor
  · rintro ⟨result, returned, ret, _⟩
    exact fun accepted => ret ((blkCacheRdAcross_ok returned).2.2.mpr accepted)
  · intro failed
    have rejectedRead := blkdevRd_failed (rfl : _ = acrossRd platform cache addr n world) failed
    have untouched := rejectedRead.2
    unfold blkCacheRdAcross
    unfold acrossRd at failed untouched
    dsimp only at failed untouched ⊢
    rw [untouched, Buffer.write_nil]
    simp only [bind, Except.bind]
    rw [if_pos failed]
    exact ⟨_, rfl, Nat.one_ne_zero, rfl⟩

theorem blkCacheRdWithin_refused_iff : (∃ result, blkCacheRdWithin platform cache addr n world = .ok result ∧
      result.ret ≠ 0 ∧ result.cache = cache) ↔
    addr / cache.blkdev.blkSize ≠ cache.loadedBlk ∧
      cache.blkdev.nblk < u64 (addr / cache.blkdev.blkSize + 1) := by
  rw [← blkdevRd_ret cache.blkdev _ _ world]
  constructor
  · rintro ⟨result, returned, ret, _⟩
    rcases blkCacheRdWithin_ok returned with ⟨_, hit, _⟩ | ⟨_, _, miss, _, ⟨failed, _, _⟩ | ⟨_, loaded, _⟩⟩
    · exact absurd hit ret
    · exact ⟨miss, failed⟩
    · exact absurd loaded ret
  · rintro ⟨miss, failed⟩
    unfold blkCacheRdWithin
    dsimp only
    rw [if_neg miss, (blkdevRd_failed rfl failed).2, Buffer.write_nil]
    simp only [bind, Except.bind]
    rw [if_pos failed]
    exact ⟨_, rfl, Nat.one_ne_zero, rfl⟩

/-- A request is refused, with the cache as it was, exactly when its blocks run over. -/
theorem blkCacheRd_refused_iff (nonempty : n ≠ 0) : (∃ result, blkCacheRd platform cache addr n world = .ok result ∧
      result.ret ≠ 0 ∧ result.cache = cache) ↔ BlocksRunOver cache addr n := by
  unfold blkCacheRd BlocksRunOver
  rw [if_neg nonempty]
  by_cases sized : cache.blkdev.blkSize = 0
  · rw [if_pos sized]
    exact iff_of_false (fun ⟨_, stopped, _⟩ => by cases stopped) fun beyond => beyond.1 sized
  · simp only [sized, ne_eq, not_false_eq_true, true_and, if_false]
    by_cases path : addr / cache.blkdev.blkSize = u64 (addr + n - 1) / cache.blkdev.blkSize
    · rw [if_neg (not_not.mpr path), if_pos path]
      exact blkCacheRdWithin_refused_iff
    · rw [if_pos path, if_neg path]
      exact blkCacheRdAcross_refused_iff

/-- Whatever its result, a call that does not return 0 has left the cache alone. -/
theorem blkCacheRd_refused {result : CacheRd World} (returned : blkCacheRd platform cache addr n world = .ok result)
    (failed : result.ret ≠ 0) : result.cache = cache := by
  unfold blkCacheRd at returned
  split at returned
  · cases returned
    rfl
  · split at returned
    · cases returned
    · split at returned
      · exact (blkCacheRdAcross_ok returned).2.1
      · rcases blkCacheRdWithin_ok returned with ⟨_, _, _, same⟩ |
          ⟨filled, written, _, _, ⟨rejected, _, same⟩ | ⟨_, ret, _⟩⟩
        · exact same
        · rw [(blkdevRd_failed rfl rejected).2, Buffer.write_nil] at written
          cases written
          exact same
        · exact absurd ret failed

theorem blkCacheRd_blkdev {result : CacheRd World} (returned : blkCacheRd platform cache addr n world = .ok result) :
    result.cache.blkdev = cache.blkdev := by
  unfold blkCacheRd at returned
  split at returned
  · cases returned
    rfl
  · split at returned
    · cases returned
    · split at returned
      · rw [(blkCacheRdAcross_ok returned).2.1]
      · rcases blkCacheRdWithin_ok returned with ⟨_, _, _, same⟩ |
          ⟨_, _, _, _, ⟨_, _, same⟩ | ⟨_, _, same⟩⟩ <;> rw [same]

theorem blkCache_reachable_blkdev (reached : (blkCacheSystem platform dev).Reachable cache) : cache.blkdev = dev := by
  refine reached.invariant (fun cache => cache.blkdev = dev) ?_ ?_
  · rintro cache ⟨world, rfl⟩
    rfl
  · rintro before request after _ same ⟨world, result, returned, rfl⟩
    exact (blkCacheRd_blkdev returned).trans same

/-- After every history, the range of a request is respected exactly when the request
lies inside the device or its blocks run over the end. -/
theorem blkCacheRd_range_respected_iff (platform : Platform World) (dev : Blkdev World) (cache : BlkCache World)
    (reached : (blkCacheSystem platform dev).Reachable cache) (addr n : UInt64) (nonempty : n ≠ 0) (world : World) :
    RangeRespected platform cache addr.toNat n.toNat world ↔
      addr.toNat + n.toNat ≤ dev.nblk * dev.blkSize ∨ BlocksRunOver cache addr.toNat n.toNat := by
  have some : n.toNat ≠ 0 := fun zero => nonempty (UInt64.toNat_inj.mp zero)
  have refused : (∃ result, blkCacheRd platform cache addr.toNat n.toNat world = .ok result ∧ result.ret ≠ 0 ∧
      result.cache = cache) ↔ BlocksRunOver cache addr.toNat n.toNat := blkCacheRd_refused_iff some
  rw [← blkCache_reachable_blkdev reached, ← refused]
  constructor
  · intro respected
    by_cases inside : addr.toNat + n.toNat ≤ cache.blkdev.nblk * cache.blkdev.blkSize
    · exact Or.inl inside
    · obtain ⟨result, returned, failed, _⟩ := respected.refused (Nat.lt_of_not_le inside)
      exact Or.inr ⟨result, returned, failed, blkCacheRd_refused returned failed⟩
  · rintro (inside | ⟨result, returned, failed, same⟩)
    · exact ⟨fun _ _ _ => inside, fun outside => absurd inside (Nat.not_le_of_lt outside)⟩
    · refine ⟨fun other again ret => ?_, fun _ => ⟨result, returned, failed, by rw [same], by rw [same]⟩⟩
      rw [returned] at again
      cases again
      exact absurd ret failed

end

theorem blkCacheRd_range_respected_iff_behind :
    RangeRespected .zeroed (blkCacheCreate .zeroed (memoryDisk stampBlock 4) ()).1 2560 5 () :=
  (blkCacheRd_range_respected_iff .zeroed (memoryDisk stampBlock 4) _ (.initial ⟨(), rfl⟩) 2560 5 (by decide) ()).mpr
    (Or.inr (by decide))

/-- The marker of an empty cache is the number of the block behind the last one, so five
bytes of that block are taken from the buffer, which nothing has been read into. -/
theorem blkCacheRd_marker_hit :
    (blkCacheSystem .zeroed (memoryDisk stampBlock 4)).Reachable
    (blkCacheCreate .zeroed (memoryDisk stampBlock 4) ()).1 ∧
      4 * 512 < 2048 + 5 ∧
      (blkCacheRd .zeroed (blkCacheCreate .zeroed (memoryDisk stampBlock 4) ()).1 2048 5 ()).toOption.map
        (fun result => (result.ret, result.dst)) = some (0, [0, 0, 0, 0, 0]) ∧
      ¬RangeRespected .zeroed (blkCacheCreate .zeroed (memoryDisk stampBlock 4) ()).1 2048 5 () := by
  refine ⟨.initial ⟨(), rfl⟩, by decide, by decide +kernel, fun respected => ?_⟩
  have hit : (blkCacheRd .zeroed (blkCacheCreate .zeroed (memoryDisk stampBlock 4) ()).1 2048 5 ()).toOption.map
      (fun result => result.ret) = some 0 := by decide +kernel
  obtain ⟨result, returned, failed, _⟩ := respected.refused (by decide)
  rw [returned] at hit
  exact failed (Option.some.inj hit)

end Bwuhos
