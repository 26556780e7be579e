import Bwuhos.BlkCache
import Bwuhos.Data.Loop
import Bwuhos.Data.Transition

namespace Bwuhos

open Bwuhos.Data

/-! # What cached reads return -/

def AllocSucceeds {World : Type} (platform : Platform World) : Prop :=
  ∀ size world, ∃ bytes, (platform.kheapAlloc size world).1 = some bytes

/-- The driver fills its buffer with exactly the blocks asked for, and these never change. -/
structure Delivers {World : Type} (dev : Blkdev World) (contents : Nat → List UInt8) : Prop where
  sized : ∀ blk, (contents blk).length = dev.blkSize
  fills : ∀ src n world, src + n ≤ dev.nblk →
    (dev.rd (dev.addr src) n world).1.data = (List.range' src n).flatMap contents

def deviceByte (contents : Nat → List UInt8) (blkSize addr : Nat) : UInt8 :=
  (contents (addr / blkSize)).getD (addr % blkSize) 0

def deviceBytes (contents : Nat → List UInt8) (blkSize addr n : Nat) : List UInt8 :=
  (List.range n).map fun index => deviceByte contents blkSize (addr + index)

section Blocks

variable {contents : Nat → List UInt8} {blkSize src count off n : Nat}

theorem flatMap_blocks_length (sized : ∀ blk, (contents blk).length = blkSize) :
    ((List.range' src count).flatMap contents).length = count * blkSize := by
  induction count generalizing src with
  | zero => simp
  | succ count ih =>
      rw [List.range'_succ, List.flatMap_cons, List.length_append, sized, ih, Nat.succ_mul, Nat.add_comm]

theorem flatMap_blocks_getElem? (sized : ∀ blk, (contents blk).length = blkSize) {index : Nat}
    (bound : index < count * blkSize) :
    ((List.range' src count).flatMap contents)[index]? =
      some (deviceByte contents blkSize (src * blkSize + index)) := by
  have positive : 0 < blkSize := Nat.pos_of_mul_pos_left (Nat.zero_lt_of_lt bound)
  induction count generalizing src index with
  | zero => simp at bound
  | succ count ih =>
      rw [List.range'_succ, List.flatMap_cons]
      by_cases here : index < blkSize
      · have inBlock : index < (contents src).length := by rw [sized]; exact here
        have block : (src * blkSize + index) / blkSize = src := by
          rw [Nat.mul_comm, Nat.mul_add_div positive, Nat.div_eq_of_lt here, Nat.add_zero]
        have offset : (src * blkSize + index) % blkSize = index := by
          rw [Nat.mul_comm, Nat.mul_add_mod, Nat.mod_eq_of_lt here]
        rw [List.getElem?_append_left inBlock, List.getElem?_eq_getElem inBlock, deviceByte, block, offset,
          List.getD_eq_getElem _ _ inBlock]
      · rw [List.getElem?_append_right (by rw [sized]; omega), sized, ih (by rw [Nat.succ_mul] at bound; omega)]
        congr 2
        rw [Nat.succ_mul]
        omega

theorem flatMap_blocks_slice (sized : ∀ blk, (contents blk).length = blkSize) (inside : off + n ≤ count * blkSize) :
    (((List.range' src count).flatMap contents).drop off).take n =
      deviceBytes contents blkSize (src * blkSize + off) n := by
  refine List.ext_getElem? fun index => ?_
  rw [List.getElem?_take, deviceBytes, List.getElem?_map]
  split
  case isTrue within =>
    rw [List.getElem?_drop, flatMap_blocks_getElem? sized (by omega), List.getElem?_range within, ← Nat.add_assoc]
    rfl
  case isFalse behind =>
    rw [List.getElem?_eq_none (by rw [List.length_range]; omega)]
    rfl

end Blocks

/-- The bytes that `blk_cache_rd` has at hand after its first division reach as far as
the request: one block on the path of one block, `rd_blk_cnt` blocks on the other. -/
def RangeCovered (blkSize addr n : Nat) : Prop :=
  n = 0 ∨ addr % blkSize + n ≤
    if addr / blkSize = u64 (addr + n - 1) / blkSize then blkSize else blkSize * (u64 (n + blkSize - 1) / blkSize)

/-- The copy is made from inside the buffer and yields the bytes of the device. -/
def ReadsDevice {World : Type} (contents : Nat → List UInt8) (blkSize addr n : Nat) (read : CacheRd World) : Prop :=
  read.dst = deviceBytes contents blkSize addr n ∧ ∀ copy, read.copy = some copy → copy.Inside

/-- The buffer has its size, and holds the block that is recorded as loaded if the
device has such a block. -/
structure Coherent {World : Type} (cache : BlkCache World) (dev : Blkdev World) (contents : Nat → List UInt8) :
    Prop where
  blkdev : cache.blkdev = dev
  sized : ∃ bytes, cache.buf = some bytes ∧ bytes.length = dev.blkSize
  loaded : cache.loadedBlk < dev.nblk → cache.buf = some (contents cache.loadedBlk)

section Calls

variable {World : Type} {platform : Platform World} {dev : Blkdev World} {contents : Nat → List UInt8}
  {cache : BlkCache World} {addr n src : Nat} {world : World}

theorem AllocSucceeds.alloc (succeeds : AllocSucceeds platform) (size : Nat) (world : World) :
    ∃ bytes, (platform.alloc size world).1 = some bytes ∧ bytes.length = size := by
  obtain ⟨bytes, answer⟩ := succeeds size world
  exact ⟨bytes.val, by rw [Platform.alloc, answer]; rfl, bytes.property⟩

theorem Delivers.blkdevRd (delivers : Delivers dev contents) (world : World) (inside : src + n ≤ dev.nblk)
    (bound : dev.nblk < 2 ^ 64) :
    (blkdevRd dev src n world).ret = 0 ∧
      (blkdevRd dev src n world).data = (List.range' src n).flatMap contents := by
  have accepted : ¬u64 (src + n) > dev.nblk := by rw [u64_of_lt (by omega)]; omega
  unfold Bwuhos.blkdevRd
  rw [if_neg accepted]
  exact ⟨rfl, delivers.fills src n world inside⟩

theorem finishRd_ok {buf : Buffer} {off : Nat} {read : Option (BlkRd World)} {result : CacheRd World}
    (returned : finishRd platform cache buf off n read world = .ok result) :
    result.ret = 0 ∧ result.cache = cache ∧ result.read = read := by
  obtain ⟨dst, _, finished⟩ := bind_eq_ok returned
  cases finished
  exact ⟨rfl, rfl, rfl⟩

def acrossRd (platform : Platform World) (cache : BlkCache World) (addr n : Nat) (world : World) : BlkRd World :=
  let count := u64 (n + cache.blkdev.blkSize - 1) / cache.blkdev.blkSize
  blkdevRd cache.blkdev (addr / cache.blkdev.blkSize) count
    (platform.alloc (u64 (cache.blkdev.blkSize * count)) world).2

theorem blkCacheRdAcross_ok {result : CacheRd World}
    (returned : blkCacheRdAcross platform cache addr n world = .ok result) :
    result.read = some (acrossRd platform cache addr n world) ∧ result.cache = cache ∧
      (result.ret = 0 ↔ (acrossRd platform cache addr n world).ret = 0) := by
  obtain ⟨buf, _, rest⟩ := bind_eq_ok returned
  split at rest
  · next failed =>
      cases rest
      exact ⟨rfl, rfl, iff_of_false Nat.one_ne_zero failed⟩
  · next succeeded =>
      obtain ⟨ret, same, read⟩ := finishRd_ok rest
      exact ⟨read, same, iff_of_true ret (not_not.mp succeeded)⟩

theorem blkCacheRdWithin_ok {result : CacheRd World}
    (returned : blkCacheRdWithin platform cache addr n world = .ok result) :
    (addr / cache.blkdev.blkSize = cache.loadedBlk ∧ result.ret = 0 ∧ result.read = none ∧ result.cache = cache) ∨
      ∃ filled, cache.buf.write (blkdevRd cache.blkdev (addr / cache.blkdev.blkSize) 1 world).data = .ok filled ∧
        addr / cache.blkdev.blkSize ≠ cache.loadedBlk ∧
        result.read = some (blkdevRd cache.blkdev (addr / cache.blkdev.blkSize) 1 world) ∧
        ((blkdevRd cache.blkdev (addr / cache.blkdev.blkSize) 1 world).ret ≠ 0 ∧ result.ret ≠ 0 ∧
            result.cache = { cache with buf := filled } ∨
          (blkdevRd cache.blkdev (addr / cache.blkdev.blkSize) 1 world).ret = 0 ∧ result.ret = 0 ∧
            result.cache = { cache with buf := filled, loadedBlk := addr / cache.blkdev.blkSize }) := by
  unfold blkCacheRdWithin at returned
  dsimp only at returned
  split at returned
  · next hit =>
      obtain ⟨ret, same, read⟩ := finishRd_ok returned
      exact Or.inl ⟨hit, ret, read, same⟩
  · next miss =>
      obtain ⟨filled, written, rest⟩ := bind_eq_ok returned
      refine Or.inr ⟨filled, written, miss, ?_⟩
      split at rest
      · next failed =>
          cases rest
          exact ⟨rfl, Or.inl ⟨failed, by simp, rfl⟩⟩
      · next succeeded =>
          obtain ⟨ret, same, read⟩ := finishRd_ok rest
          exact ⟨read, Or.inr ⟨not_not.mp succeeded, ret, same⟩⟩

theorem blkdevRd_failed {read : BlkRd World} (same : blkdevRd dev src n world = read) (failed : read.ret ≠ 0) :
    read.call = none ∧ read.data = [] := by
  unfold blkdevRd at same
  split at same
  · subst same
    exact ⟨rfl, rfl⟩
  · subst same
    exact absurd rfl failed

theorem blkCacheRd_null {result : CacheRd World} (returned : blkCacheRd platform cache addr n world = .ok result) :
    result.cache.buf = none ↔ cache.buf = none := by
  unfold blkCacheRd at returned
  split at returned
  · cases returned
    rfl
  · split at returned
    · cases returned
    · split at returned
      · obtain ⟨_, same, _⟩ := blkCacheRdAcross_ok returned
        rw [same]
      · rcases blkCacheRdWithin_ok returned with ⟨_, _, _, same⟩ |
          ⟨filled, written, _, _, ⟨_, _, same⟩ | ⟨_, _, same⟩⟩ <;>
          rw [same]
        · exact Buffer.write_null written
        · exact Buffer.write_null written

/-- Every call keeps the cache coherent, wherever it reads. -/
theorem Coherent.kept (coherent : Coherent cache dev contents) (delivers : Delivers dev contents)
    (bound : dev.nblk < 2 ^ 64) {result : CacheRd World}
    (returned : blkCacheRd platform cache addr n world = .ok result) :
    Coherent result.cache dev contents := by
  obtain ⟨rfl, ⟨bytes, buf, size⟩, loaded⟩ := coherent
  have unchanged : Coherent cache cache.blkdev contents := ⟨rfl, ⟨bytes, buf, size⟩, loaded⟩
  unfold blkCacheRd at returned
  split at returned
  · cases returned
    exact unchanged
  · split at returned
    · cases returned
    · split at returned
      · obtain ⟨_, same, _⟩ := blkCacheRdAcross_ok returned
        exact same ▸ unchanged
      · rcases blkCacheRdWithin_ok returned with ⟨_, _, _, same⟩ | ⟨filled, written, _, _, outcome⟩
        · exact same ▸ unchanged
        · rw [buf] at written
          obtain ⟨after, rfl, length⟩ := Buffer.write_length written
          rcases outcome with ⟨failed, _, same⟩ | ⟨succeeded, _, same⟩
          · rw [(blkdevRd_failed rfl failed).2] at written
            obtain rfl := Option.some.inj (Except.ok.inj written)
            rw [same]
            exact ⟨rfl, ⟨bytes, rfl, size⟩, fun existing => buf ▸ loaded existing⟩
          · rw [same]
            refine ⟨rfl, ⟨after, rfl, length.trans size⟩, fun existing => ?_⟩
            have block := (delivers.blkdevRd world (n := 1) existing bound).2
            have full : (contents (addr / cache.blkdev.blkSize)).length = bytes.length :=
              (delivers.sized _).trans size.symm
            rw [block, List.range'_one, List.flatMap_singleton, Buffer.write_full full] at written
            exact (Except.ok.inj written).symm

theorem finishRd_blocks {blkSize : Nat} (platform : Platform World) (cache : BlkCache World) (addr n count : Nat)
    (world : World) (sized : ∀ blk, (contents blk).length = blkSize) (read : Option (BlkRd World)) : ∃ result,
      finishRd platform cache (some ((List.range' (addr / blkSize) count).flatMap contents)) (addr % blkSize) n read
        world = .ok result ∧
      result.ret = 0 ∧ (ReadsDevice contents blkSize addr n result ↔ addr % blkSize + n ≤ count * blkSize) := by
  refine ⟨_, rfl, rfl, ?_⟩
  have blocks : ((List.range' (addr / blkSize) count).flatMap contents).length = count * blkSize :=
    flatMap_blocks_length sized
  rw [← blocks]
  constructor
  · exact fun ⟨_, inside⟩ => inside _ rfl
  · intro inside
    refine ⟨?_, fun copy made => ?_⟩
    · have copied := Buffer.memcpy_inside (platform.beyond world) inside
      rw [flatMap_blocks_length sized] at inside
      rw [flatMap_blocks_slice sized inside, Nat.div_add_mod'] at copied
      exact Except.ok.inj copied
    · cases made
      exact inside

theorem blkCacheRdWithin_spec (platform : Platform World) (n : Nat) (world : World)
    (coherent : Coherent cache dev contents) (delivers : Delivers dev contents)
    (bound : dev.nblk < 2 ^ 64) (existing : addr / dev.blkSize < dev.nblk) :
    ∃ result, blkCacheRdWithin platform cache addr n world = .ok result ∧ result.ret = 0 ∧
      (ReadsDevice contents dev.blkSize addr n result ↔ addr % dev.blkSize + n ≤ dev.blkSize) := by
  obtain ⟨rfl, ⟨bytes, buf, size⟩, loaded⟩ := coherent
  have oneBlock : contents (addr / cache.blkdev.blkSize) =
      (List.range' (addr / cache.blkdev.blkSize) 1).flatMap contents := by
    rw [List.range'_one, List.flatMap_singleton]
  have finished := fun (after : BlkCache World) (read : Option (BlkRd World)) (world : World) =>
    finishRd_blocks platform after addr n 1 world delivers.sized read
  simp only [← oneBlock, Nat.one_mul] at finished
  unfold blkCacheRdWithin
  dsimp only
  by_cases hit : addr / cache.blkdev.blkSize = cache.loadedBlk
  · rw [if_pos hit, loaded (hit ▸ existing), ← hit]
    exact finished cache none world
  · obtain ⟨ret, data⟩ := delivers.blkdevRd world (n := 1) existing bound
    have full : (contents (addr / cache.blkdev.blkSize)).length = bytes.length := (delivers.sized _).trans size.symm
    rw [if_neg hit, data, ← oneBlock, buf, Buffer.write_full full]
    simp only [bind, Except.bind]
    rw [if_neg (not_not.mpr ret)]
    exact finished _ _ _

theorem blkCacheRdAcross_spec (delivers : Delivers cache.blkdev contents) (succeeds : AllocSucceeds platform)
    (bound : cache.blkdev.nblk < 2 ^ 64) (positive : 0 < cache.blkdev.blkSize)
    (inside : addr + n ≤ cache.blkdev.nblk * cache.blkdev.blkSize) :
    ∃ result, blkCacheRdAcross platform cache addr n world = .ok result ∧ result.ret = 0 ∧
      (ReadsDevice contents cache.blkdev.blkSize addr n result ↔
        addr % cache.blkdev.blkSize + n ≤
          cache.blkdev.blkSize * (u64 (n + cache.blkdev.blkSize - 1) / cache.blkdev.blkSize)) := by
  unfold blkCacheRdAcross
  dsimp only
  have counted : u64 (n + cache.blkdev.blkSize - 1) / cache.blkdev.blkSize ≤
      (n + cache.blkdev.blkSize - 1) / cache.blkdev.blkSize := Nat.div_le_div_right (u64_le _)
  have small : u64 (cache.blkdev.blkSize * (u64 (n + cache.blkdev.blkSize - 1) / cache.blkdev.blkSize)) =
      cache.blkdev.blkSize * (u64 (n + cache.blkdev.blkSize - 1) / cache.blkdev.blkSize) :=
    u64_of_lt (Nat.lt_of_le_of_lt (Nat.mul_div_le _ _) (u64_lt _))
  rw [small]
  generalize u64 (n + cache.blkdev.blkSize - 1) / cache.blkdev.blkSize = count at counted ⊢
  have first : addr / cache.blkdev.blkSize * cache.blkdev.blkSize ≤ addr := Nat.div_mul_le_self _ _
  have last : (n + cache.blkdev.blkSize - 1 + addr / cache.blkdev.blkSize * cache.blkdev.blkSize) /
      cache.blkdev.blkSize < cache.blkdev.nblk + 1 := by
    rw [Nat.div_lt_iff_lt_mul positive, Nat.succ_mul]
    omega
  rw [Nat.add_mul_div_right _ _ positive] at last
  have existing : addr / cache.blkdev.blkSize + count ≤ cache.blkdev.nblk := by omega
  obtain ⟨bytes, answer, size⟩ := succeeds.alloc (cache.blkdev.blkSize * count) world
  obtain ⟨ret, data⟩ := delivers.blkdevRd (platform.alloc (cache.blkdev.blkSize * count) world).2 existing bound
  have full : ((List.range' (addr / cache.blkdev.blkSize) count).flatMap contents).length = bytes.length := by
    rw [flatMap_blocks_length delivers.sized, size, Nat.mul_comm]
  rw [answer, data, Buffer.write_full full]
  simp only [bind, Except.bind]
  rw [if_neg (not_not.mpr ret), Nat.mul_comm cache.blkdev.blkSize count]
  exact finishRd_blocks platform cache addr n count _ delivers.sized _

theorem blkCacheRd_spec (coherent : Coherent cache dev contents) (delivers : Delivers dev contents)
    (succeeds : AllocSucceeds platform) (bound : dev.nblk < 2 ^ 64) (inside : addr + n ≤ dev.nblk * dev.blkSize) :
    ∃ result, blkCacheRd platform cache addr n world = .ok result ∧ result.ret = 0 ∧
      (ReadsDevice contents dev.blkSize addr n result ↔ RangeCovered dev.blkSize addr n) := by
  have same := coherent.blkdev
  subst same
  unfold blkCacheRd
  by_cases empty : n = 0
  · subst empty
    rw [if_pos rfl]
    refine ⟨_, rfl, rfl, iff_of_true ⟨rfl, fun copy made => by cases made⟩ (Or.inl rfl)⟩
  have positive : cache.blkdev.blkSize ≠ 0 := fun zero => by rw [zero] at inside; omega
  rw [if_neg empty, if_neg positive]
  unfold RangeCovered
  rw [or_iff_right empty]
  by_cases path : addr / cache.blkdev.blkSize = u64 (addr + n - 1) / cache.blkdev.blkSize
  · have existing : addr / cache.blkdev.blkSize < cache.blkdev.nblk :=
      Nat.div_lt_of_lt_mul (by rw [Nat.mul_comm]; omega)
    rw [if_neg (not_not.mpr path), if_pos path]
    exact blkCacheRdWithin_spec platform n world coherent delivers bound existing
  · rw [if_pos path, if_neg path]
    exact blkCacheRdAcross_spec delivers succeeds bound (Nat.pos_of_ne_zero positive) inside

end Calls

/-- The histories of a cache: `blk_cache_create`, then calls of `blk_cache_rd` with any
arguments.  The world may change in any way between two calls. -/
def blkCacheSystem {World : Type} (platform : Platform World) (dev : Blkdev World) :
    TransitionSystem (BlkCache World) (UInt64 × UInt64) where
  initial cache := ∃ world, cache = (blkCacheCreate platform dev world).1
  step before request after := ∃ world result,
    blkCacheRd platform before request.1.toNat request.2.toNat world = .ok result ∧ after = result.cache

section Runs

variable {World : Type} {platform : Platform World} {dev : Blkdev World} {contents : Nat → List UInt8}
  {cache : BlkCache World}

theorem blkCacheCreate_coherent (world : World) : (blkCacheCreate platform dev world).1.buf = none ∨
    Coherent (blkCacheCreate platform dev world).1 dev contents := by
  cases answer : (platform.kheapAlloc dev.blkSize world).1 with
  | none => exact Or.inl (congrArg (Option.map Subtype.val) answer)
  | some bytes =>
      exact Or.inr ⟨rfl, ⟨bytes.val, congrArg (Option.map Subtype.val) answer, bytes.property⟩,
        fun loaded => absurd loaded (Nat.lt_irrefl _)⟩

theorem blkCache_reachable_coherent (reached : (blkCacheSystem platform dev).Reachable cache)
    (delivers : Delivers dev contents) (allocated : cache.buf ≠ none) (bound : dev.nblk < 2 ^ 64) :
    Coherent cache dev contents := by
  refine Or.resolve_left
    (reached.invariant (fun cache => cache.buf = none ∨ Coherent cache dev contents) ?_ ?_) allocated
  · rintro cache ⟨world, rfl⟩
    exact blkCacheCreate_coherent world
  · rintro before request after _ (null | coherent) ⟨world, result, returned, rfl⟩
    · exact Or.inl ((blkCacheRd_null returned).mpr null)
    · exact Or.inr (coherent.kept delivers bound returned)

theorem AllocSucceeds.allocated (succeeds : AllocSucceeds platform)
    (reached : (blkCacheSystem platform dev).Reachable cache) : cache.buf ≠ none := by
  refine reached.invariant (fun cache => cache.buf ≠ none) ?_ ?_
  · rintro cache ⟨world, rfl⟩ null
    obtain ⟨bytes, answer, _⟩ := succeeds.alloc dev.blkSize world
    cases answer.symm.trans null
  · rintro before request after _ present ⟨world, result, returned, rfl⟩
    exact fun null => present ((blkCacheRd_null returned).mp null)

/-- After every history, a request inside the device returns 0, and it is answered with
the bytes of the device exactly when its range is covered. -/
theorem blkCacheRd_reads_device_iff (platform : Platform World) (dev : Blkdev World) (contents : Nat → List UInt8)
    (delivers : Delivers dev contents) (succeeds : AllocSucceeds platform) (bound : dev.nblk < 2 ^ 64)
    (cache : BlkCache World) (reached : (blkCacheSystem platform dev).Reachable cache) (addr n : UInt64)
    (inside : addr.toNat + n.toNat ≤ dev.nblk * dev.blkSize) (world : World) :
    ∃ result, blkCacheRd platform cache addr.toNat n.toNat world = .ok result ∧ result.ret = 0 ∧
      (ReadsDevice contents dev.blkSize addr.toNat n.toNat result ↔
        RangeCovered dev.blkSize addr.toNat n.toNat) :=
  blkCacheRd_spec (blkCache_reachable_coherent reached delivers (succeeds.allocated reached) bound) delivers
    succeeds bound inside

end Runs

/-- Where no sum overflows, a range is covered when it touches no more blocks than its
length needs. -/
theorem rangeCovered_iff_blocks {blkSize addr n : Nat} (positive : 0 < blkSize) (room : addr + n + blkSize ≤ 2 ^ 64) :
    RangeCovered blkSize addr n ↔
      n = 0 ∨ (addr + n - 1) / blkSize < addr / blkSize + (n + blkSize - 1) / blkSize := by
  unfold RangeCovered
  by_cases empty : n = 0
  · exact iff_of_true (Or.inl empty) (Or.inl empty)
  have split := Nat.div_add_mod' addr blkSize
  have offset := Nat.mod_lt addr positive
  have needed : 0 < (n + blkSize - 1) / blkSize := Nat.div_pos (by omega) positive
  rw [or_iff_right empty, or_iff_right empty, u64_of_lt (by omega), u64_of_lt (by omega)]
  generalize addr / blkSize = first at split ⊢
  generalize addr % blkSize = off at split offset ⊢
  generalize (n + blkSize - 1) / blkSize = count at needed ⊢
  have reach : (addr + n - 1) / blkSize < first + count ↔ off + n ≤ blkSize * count := by
    rw [Nat.div_lt_iff_lt_mul positive, Nat.add_mul, Nat.mul_comm blkSize count]
    omega
  rw [reach]
  by_cases sameBlock : first = (addr + n - 1) / blkSize
  · have within : (addr + n - 1) / blkSize < first + 1 := by omega
    rw [Nat.div_lt_iff_lt_mul positive, Nat.succ_mul] at within
    have oneBlock : blkSize * 1 ≤ blkSize * count := Nat.mul_le_mul_left _ needed
    rw [if_pos sameBlock]
    omega
  · rw [if_neg sameBlock]

def stampBlock (blk : Nat) : List UInt8 := List.replicate 512 (UInt8.ofNat (blk + 1))

theorem memoryDisk_addr (contents : Nat → List UInt8) (nblk blk : Nat) :
    (memoryDisk contents nblk).addr blk = blk := by
  simp [Blkdev.addr, memoryDisk]

theorem memoryDisk_delivers {contents : Nat → List UInt8} (sized : ∀ blk, (contents blk).length = 512) (nblk : Nat) :
    Delivers (memoryDisk contents nblk) contents :=
  ⟨sized, fun src n world _ => by rw [memoryDisk_addr]; rfl⟩

theorem zeroed_succeeds {World : Type} : AllocSucceeds (Platform.zeroed : Platform World) := fun _ _ => ⟨_, rfl⟩

theorem blkCacheRd_reads_device_iff_oneBlock :
    ∃ result, blkCacheRd .zeroed (blkCacheCreate .zeroed (memoryDisk stampBlock 4) ()).1 510 2 () = .ok result ∧
      result.ret = 0 ∧ ReadsDevice stampBlock 512 510 2 result := by
  obtain ⟨result, returned, ret, exactly⟩ := blkCacheRd_reads_device_iff .zeroed (memoryDisk stampBlock 4) stampBlock
    (memoryDisk_delivers (fun _ => List.length_replicate) 4) zeroed_succeeds (by decide) _ (.initial ⟨(), rfl⟩) 510 2
    (by decide) ()
  exact ⟨result, returned, ret, exactly.mpr (Or.inr (by decide))⟩

/-- Two bytes on both sides of a block boundary: one block is read for them, and the
second byte comes from behind the buffer. -/
theorem blkCacheRd_straddle :
    (blkCacheSystem .zeroed (memoryDisk stampBlock 4)).Reachable
    (blkCacheCreate .zeroed (memoryDisk stampBlock 4) ()).1 ∧
      Delivers (memoryDisk stampBlock 4) stampBlock ∧ 511 + 2 ≤ 4 * 512 ∧
      (blkCacheRd .zeroed (blkCacheCreate .zeroed (memoryDisk stampBlock 4) ()).1 511 2 ()).toOption.map
        (fun result => (result.ret, result.dst, result.copy)) = some
          (0, [1, 0], some { size := 512, off := 511, n := 2 }) ∧
      deviceBytes stampBlock 512 511 2 = [1, 2] ∧ ¬MemCopy.Inside { size := 512, off := 511, n := 2 } := by
  have straddles : ¬MemCopy.Inside { size := 512, off := 511, n := 2 } := by simp [MemCopy.Inside]
  exact ⟨.initial ⟨(), rfl⟩, memoryDisk_delivers (fun _ => List.length_replicate) 4, by decide, by decide +kernel,
    by decide +kernel, straddles⟩

end Bwuhos
