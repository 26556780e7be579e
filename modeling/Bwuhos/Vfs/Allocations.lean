import Bwuhos.AtaPio
import Bwuhos.BlkCache.Bounds
import Bwuhos.Blkdev.Ranges
import Bwuhos.Fat.File
import Bwuhos.Fat.Search

namespace Bwuhos

open Bwuhos.Data

/-! # Failed allocations in the storage code

None of the results of `kheap_alloc` is checked.
-/

section

variable {World : Type}

/-- A null allocation is not accessed, and what depends on it does not succeed. -/
def NullSurfaces {Result : Type} (null : Prop) (outcome : Except Stop Result) (failed : Result → Prop) : Prop :=
  outcome ≠ .error .nullDeref ∧ (null → ∀ result, outcome = .ok result → failed result)

/-- Partitions made of one device, by base and limit. -/
def partSystem (start : BlkNode World) : TransitionSystem (BlkNode World) (Nat × Nat) where
  initial node := node = start
  step before range after := ∃ part, blkdevMkPart before range.1 range.2 = .ok (part, after)

/-- The buffer that the request is read into is null: one of its own if it runs across
blocks, else that of the cache. -/
def BufferNull (platform : Platform World) (cache : BlkCache World) (addr n : Nat) (world : World) : Prop :=
  let blkSize := cache.blkdev.blkSize
  n ≠ 0 ∧
    if addr / blkSize ≠ u64 (addr + n - 1) / blkSize then
      (platform.alloc (u64 (blkSize * (u64 (n + blkSize - 1) / blkSize))) world).1 = none
    else cache.buf = none

instance (platform : Platform World) (cache : BlkCache World) (addr n : Nat) (world : World) :
    Decidable (BufferNull platform cache addr n world) :=
  inferInstanceAs (Decidable (_ ∧ ite _ _ _))

variable {platform : Platform World} {Result : Type} {outcome : Except Stop Result}
    {failed : Result → Prop} {null : Prop}
  {cache : BlkCache World} {addr n : Nat} {world : World}

theorem nullSurfaces_of_present (present : ¬null) (sound : outcome ≠ .error .nullDeref) :
    NullSurfaces null outcome failed :=
  ⟨sound, fun isNull => absurd isNull present⟩

theorem nullSurfaces_of_failed (result : Result) (returned : outcome = .ok result) (fails : failed result) :
    NullSurfaces null outcome failed := by
  refine ⟨fun stopped => ?_, fun _ other same => ?_⟩
  · cases returned.symm.trans stopped
  · cases returned.symm.trans same
    exact fails

theorem filled_null_iff (buf : Buffer) (value : Result) :
    NullSurfaces (buf = none) (match buf with | none => .error .nullDeref | some _ => .ok value) (fun _ => False) ↔
      buf ≠ none := by
  cases buf with
  | none => exact iff_of_false (fun surfaces => surfaces.1 rfl) (fun present => present rfl)
  | some bytes => exact iff_of_true (nullSurfaces_of_present nofun nofun) nofun

theorem ataPioBlkdevCreate_null_iff (rd : AtaPioDev → (src n : Nat) → World → RdAnswer × World)
    (wr : AtaPioDev → (dst : Nat) → (src : List UInt8) → (n : Nat) → World → Int × World) (dev : AtaPioDev)
    (world : World) :
    NullSurfaces ((platform.alloc ataPioDevSize world).1 = none) (ataPioBlkdevCreate platform rd wr dev world)
      (fun _ => False) ↔ (platform.alloc ataPioDevSize world).1 ≠ none :=
  filled_null_iff _ _

theorem fatVfsFsDriverCreate_null_iff (driver : FatDriver World) (world : World) :
    NullSurfaces ((platform.alloc fatDriverSize world).1 = none) (fatVfsFsDriverCreate platform driver world)
      (fun _ => False) ↔ (platform.alloc fatDriverSize world).1 ≠ none :=
  filled_null_iff _ _

theorem partSystem_keeps {start node : BlkNode World} {ranges : List (Nat × Nat)}
    (run : (partSystem start).Run start ranges node) :
    node.dev = start.dev ∧ (node.children = none ↔ start.children = none) := by
  refine run.invariant (fun node => node.dev = start.dev ∧ (node.children = none ↔ start.children = none))
    ⟨rfl, Iff.rfl⟩ ?_
  rintro before range after ⟨dev, children⟩ ⟨part, returned⟩
  obtain ⟨sameDev, sameChildren⟩ := blkdevMkPart_keeps returned
  exact ⟨sameDev.trans dev, sameChildren.trans children⟩

theorem blkdevMkPart_null_iff (node : BlkNode World) (base limit : Nat) :
    NullSurfaces (node.children = none) (blkdevMkPart node base limit) (fun made => made.1 = none) ↔
      node.children ≠ none ∨ node.dev.flags &&& bfPart ≠ 0 ∨ node.dev.nblk < u64 (base + limit) := by
  by_cases parted : node.dev.flags &&& bfPart ≠ 0
  · refine iff_of_true (nullSurfaces_of_failed (none, node) ?_ rfl) (Or.inr (Or.inl parted))
    rw [blkdevMkPart, if_pos parted]
  · cases children : node.children with
    | some parts =>
        refine iff_of_true (nullSurfaces_of_present nofun fun stopped => ?_) (Or.inl nofun)
        unfold blkdevMkPart at stopped
        rw [if_neg parted, children] at stopped
        split at stopped
        · cases stopped
        · split at stopped <;> cases stopped
    | none =>
        have few : ¬(none.getD ([] : List (Blkdev World))).length ≥ blkdevMaxParts := Nat.not_succ_le_zero 31
        by_cases beyond : node.dev.nblk < u64 (base + limit)
        · refine iff_of_true (nullSurfaces_of_failed (none, node) ?_ rfl) (Or.inr (Or.inr beyond))
          rw [blkdevMkPart, if_neg parted, children, if_neg few, if_pos beyond]
        · refine iff_of_false (fun surfaces => surfaces.1 ?_) ?_
          · rw [blkdevMkPart, if_neg parted, children, if_neg few, if_neg beyond]
          · rintro (present | flagged | beyond')
            · exact present rfl
            · exact parted flagged
            · exact beyond beyond'

theorem write_ne_nullDeref {bytes data : List UInt8} : Buffer.write (some bytes) data ≠ .error .nullDeref := by
  intro stopped
  cases data with
  | nil => cases stopped
  | cons first rest =>
      simp only [Buffer.write] at stopped
      split at stopped <;> cases stopped

/-- What both paths of a cached read do with their buffer: it is accessed unless the device
rejects the range, and then nothing has been written to it. -/
theorem fill_nullDeref_iff {buf : Buffer} {data : List UInt8} {rejected : Prop} [Decidable rejected]
    {refused : Buffer → CacheRd World} {next : Buffer → BlkCache World} {off : Nat} {read : Option (BlkRd World)}
    (untouched : rejected → data = []) :
    (buf.write data >>= fun filled =>
      if rejected then .ok (refused filled) else finishRd platform (next filled) filled off n read world) =
        .error .nullDeref ↔ buf = none ∧ ¬rejected := by
  cases buf with
  | some bytes =>
      refine iff_of_false (fun stopped => ?_) nofun
      cases written : Buffer.write (some bytes) data with
      | error stop =>
          rw [written] at stopped
          cases stopped
          exact write_ne_nullDeref written
      | ok after =>
          obtain ⟨filled, rfl, _⟩ := Buffer.write_length written
          rw [written] at stopped
          simp only [bind, Except.bind] at stopped
          split at stopped <;> cases stopped
  | none =>
      cases data with
      | nil =>
          simp only [Buffer.write_nil, bind, Except.bind, true_and]
          by_cases refuses : rejected
          · rw [if_pos refuses]
            exact iff_of_false nofun (not_not.mpr refuses)
          · rw [if_neg refuses]
            exact iff_of_true rfl refuses
      | cons first rest => exact iff_of_true rfl ⟨rfl, fun refuses => by cases untouched refuses⟩

theorem blkCacheRdAcross_nullDeref_iff : blkCacheRdAcross platform cache addr n world = .error .nullDeref ↔
    (platform.alloc (u64 (cache.blkdev.blkSize * (u64 (n + cache.blkdev.blkSize - 1) / cache.blkdev.blkSize)))
      world).1 = none ∧ ¬cache.blkdev.nblk <
        u64 (addr / cache.blkdev.blkSize + u64 (n + cache.blkdev.blkSize - 1) / cache.blkdev.blkSize) := by
  rw [← blkdevRd_ret cache.blkdev _ _
    (platform.alloc (u64 (cache.blkdev.blkSize * (u64 (n + cache.blkdev.blkSize - 1) / cache.blkdev.blkSize)))
      world).2]
  exact fill_nullDeref_iff fun failed => (blkdevRd_failed rfl failed).2

theorem blkCacheRdWithin_nullDeref_iff : blkCacheRdWithin platform cache addr n world = .error .nullDeref ↔
    cache.buf = none ∧ ¬(addr / cache.blkdev.blkSize ≠ cache.loadedBlk ∧
      cache.blkdev.nblk < u64 (addr / cache.blkdev.blkSize + 1)) := by
  unfold blkCacheRdWithin
  dsimp only
  by_cases hit : addr / cache.blkdev.blkSize = cache.loadedBlk
  · rw [if_pos hit]
    cases cache.buf with
    | none => exact iff_of_true rfl ⟨rfl, fun miss => miss.1 hit⟩
    | some bytes => exact iff_of_false nofun nofun
  · rw [if_neg hit, ← blkdevRd_ret cache.blkdev _ _ world]
    refine (fill_nullDeref_iff fun failed => (blkdevRd_failed rfl failed).2).trans (and_congr_right fun _ => ?_)
    exact not_congr (iff_and_self.mpr fun _ => hit)

theorem blkCacheRd_nullDeref_iff : blkCacheRd platform cache addr n world = .error .nullDeref ↔
    BufferNull platform cache addr n world ∧ cache.blkdev.blkSize ≠ 0 ∧ ¬BlocksRunOver cache addr n := by
  unfold blkCacheRd BufferNull BlocksRunOver
  by_cases empty : n = 0
  · rw [if_pos empty]
    exact iff_of_false nofun fun null => null.1.1 empty
  · rw [if_neg empty]
    by_cases sized : cache.blkdev.blkSize = 0
    · rw [if_pos sized]
      exact iff_of_false nofun fun null => null.2.1 sized
    · simp only [sized, empty, ne_eq, not_false_eq_true, true_and, if_false]
      by_cases path : addr / cache.blkdev.blkSize = u64 (addr + n - 1) / cache.blkdev.blkSize
      · rw [if_neg (not_not.mpr path), if_neg (not_not.mpr path), if_pos path]
        exact blkCacheRdWithin_nullDeref_iff
      · rw [if_pos path, if_pos path, if_neg path]
        exact blkCacheRdAcross_nullDeref_iff

theorem blkCacheRd_null_iff :
    NullSurfaces (BufferNull platform cache addr n world) (blkCacheRd platform cache addr n world)
    (fun result => result.ret ≠ 0) ↔
      ¬BufferNull platform cache addr n world ∨ cache.blkdev.blkSize = 0 ∨ BlocksRunOver cache addr n := by
  constructor
  · intro surfaces
    by_contra unmet
    push Not at unmet
    exact surfaces.1 (blkCacheRd_nullDeref_iff.mpr unmet)
  · by_cases null : BufferNull platform cache addr n world
    · rintro (present | unsized | beyond)
      · exact absurd null present
      · have stopped : blkCacheRd platform cache addr n world = .error .divByZero := by
          rw [blkCacheRd, if_neg null.1, if_pos unsized]
        rw [stopped]
        exact ⟨fun null => (by cases null), fun _ _ returned => (by cases returned)⟩
      · obtain ⟨result, returned, failed, _⟩ := (blkCacheRd_refused_iff null.1).mpr beyond
        exact nullSurfaces_of_failed result returned failed
    · intro _
      exact nullSurfaces_of_present null fun stopped => null (blkCacheRd_nullDeref_iff.mp stopped).1

theorem blkCacheCreate_null_iff {dev : Blkdev World} {start : World} {requests : List (UInt64 × UInt64)}
    (run : (blkCacheSystem platform dev).Run (blkCacheCreate platform dev start).1 requests cache) :
    cache.blkdev = dev ∧ (cache.buf = none ↔ (platform.alloc dev.blkSize start).1 = none) := by
  refine run.invariant (fun cache => cache.blkdev = dev ∧
    (cache.buf = none ↔ (platform.alloc dev.blkSize start).1 = none))
    ⟨rfl, Iff.rfl⟩ ?_
  rintro before request after ⟨same, null⟩ ⟨world, result, returned, rfl⟩
  exact ⟨(blkCacheRd_blkdev returned).trans same, (blkCacheRd_null returned).trans null⟩

/-- A failed allocation is harmless exactly where the memory is not used: never in the two
functions that fill what they allocate; in `blkdev_mk_part` and `blk_cache_rd`, after any
earlier calls, where the arguments are refused first. -/
theorem storage_null_allocations_iff (platform : Platform World) :
    (∀ rd wr dev world, NullSurfaces ((platform.alloc ataPioDevSize world).1 = none)
        (ataPioBlkdevCreate platform rd wr dev world) (fun _ => False) ↔
      (platform.alloc ataPioDevSize world).1 ≠ none) ∧
    (∀ rd wr devType driver flags blkSize nblk world created last ranges node base limit,
      blkdevCreate platform rd wr devType driver flags blkSize nblk world = (created, last) →
      (partSystem created).Run created ranges node →
        (NullSurfaces ((platform.alloc (blkdevSize * blkdevMaxParts) world).1 = none) (blkdevMkPart node base limit)
            (fun made => made.1 = none) ↔
          (platform.alloc (blkdevSize * blkdevMaxParts) world).1 ≠ none ∨ flags &&& bfPart ≠ 0 ∨
            nblk < u64 (base + limit))) ∧
    (∀ dev start requests cache addr n world,
      (blkCacheSystem platform dev).Run (blkCacheCreate platform dev start).1 requests cache →
        (cache.buf = none ↔ (platform.alloc dev.blkSize start).1 = none) ∧
        (NullSurfaces (BufferNull platform cache addr n world) (blkCacheRd platform cache addr n world)
            (fun result => result.ret ≠ 0) ↔
          ¬BufferNull platform cache addr n world ∨ dev.blkSize = 0 ∨ BlocksRunOver cache addr n)) ∧
    (∀ driver world, NullSurfaces ((platform.alloc fatDriverSize world).1 = none)
        (fatVfsFsDriverCreate platform driver world) (fun _ => False) ↔
      (platform.alloc fatDriverSize world).1 ≠ none) := by
  refine ⟨ataPioBlkdevCreate_null_iff, ?_, ?_, fatVfsFsDriverCreate_null_iff⟩
  · intro rd wr devType driver flags blkSize nblk world created last ranges node base limit made run
    obtain ⟨dev, children⟩ := partSystem_keeps run
    cases made
    have array : node.children = none ↔ (platform.alloc (blkdevSize * blkdevMaxParts) world).1 = none :=
      children.trans Option.map_eq_none_iff
    have parts := blkdevMkPart_null_iff node base limit
    rw [array, ne_eq, array, dev] at parts
    exact parts
  · intro dev start requests cache addr n world run
    obtain ⟨rfl, null⟩ := blkCacheCreate_null_iff run
    exact ⟨null, blkCacheRd_null_iff⟩

end

theorem storage_null_allocations_iff_zeroed :
    NullSurfaces (BufferNull .zeroed (blkCacheCreate .zeroed (memoryDisk stampBlock 4) ()).1 0 1 ())
      (blkCacheRd .zeroed (blkCacheCreate .zeroed (memoryDisk stampBlock 4) ()).1 0 1 ()) fun result =>
        result.ret ≠ 0 :=
  ((storage_null_allocations_iff .zeroed).2.2.1 (memoryDisk stampBlock 4) () [] _ 0 1 () (.nil _)).2.mpr
    (Or.inl (by decide +kernel))

theorem storage_null_access :
    ataPioBlkdevCreate exhausted (fun _ => (memoryDisk stampBlock 4).rd) (fun _ => (memoryDisk stampBlock 4).wr)
        ⟨512, 4, 0x1f0, 0x3f6, 0, apdsLba⟩ () = .error .nullDeref ∧
      blkdevMkPart (blkdevCreate exhausted (memoryDisk stampBlock 4).rd (memoryDisk stampBlock 4).wr .diskDrive .ataPio
        0 512 4 ()).1 0 2 = .error .nullDeref ∧
      blkCacheRd exhausted (blkCacheCreate exhausted (memoryDisk stampBlock 4) ()).1 0 1 () = .error .nullDeref ∧
      fatVfsFsDriverCreate exhausted smallDriver () = .error .nullDeref ∧
      ¬NullSurfaces ((exhausted.alloc fatDriverSize ()).1 = none) (fatVfsFsDriverCreate exhausted smallDriver ())
        fun _ => False :=
  ⟨rfl, rfl, by rfl, rfl, fun surfaces => surfaces.1 rfl⟩

end Bwuhos
