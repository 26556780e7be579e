import Bwuhos.Fat.Runs

namespace Bwuhos

open Bwuhos.Data

/-! # Is the geometry of an accepted volume consistent?

The sector counts of the boot sector are subtracted from each other without a check, so
the data sectors can be counted below zero.
-/

def bpbVolumeSectors (buf : List UInt8) : Nat :=
  if bpbSectorCnt buf ≠ 0 then bpbSectorCnt buf else bpbLargeSectorCnt buf

def bpbFats (buf : List UInt8) : Nat := bpbFatCnt buf * bpbFatSectors buf

def bpbRootSectors (buf : List UInt8) : Nat :=
  (32 * bpbRootDirentCnt buf + bpbSectorSize buf - 1) / bpbSectorSize buf

/-- The reserved sectors, the FATs and the root directory leave room in the volume. -/
def MetadataFits (buf : List UInt8) : Prop :=
  bpbResSectorCnt buf + bpbFats buf + bpbRootSectors buf ≤ bpbVolumeSectors buf

instance : DecidablePred MetadataFits := fun _ => inferInstanceAs (Decidable (_ ≤ _))

/-- The geometry that a driver holds, in unbounded integers. -/
structure GeometryConsistent {World : Type} (driver : FatDriver World) (buf : List UInt8) : Prop where
  metadata : bpbResSectorCnt buf + bpbFats buf + driver.rootSectorCnt ≤ driver.sectorCnt
  data : bpbResSectorCnt buf + bpbFats buf + driver.rootSectorCnt + driver.dataSectorCnt = driver.sectorCnt
  clusters : driver.firstDataSector + driver.clusterCnt * driver.clusterSize ≤ driver.sectorCnt

section

variable {World : Type} {platform : Platform World} {dev : Blkdev World} {driver : FatDriver World}
  {world verified read last : World} {buf : List UInt8} {geometry : FatGeometry}

theorem bpbVolumeSectors_lt (buf : List UInt8) : bpbVolumeSectors buf < 2 ^ 32 := by
  have small := le16_lt buf 19
  have large := le32_lt buf 32
  unfold bpbVolumeSectors bpbSectorCnt bpbLargeSectorCnt
  split <;> omega

/-- Where the subtractions do not wrap, they give the difference. -/
theorem fatGeometry_fits (computed : fatGeometry buf = .ok geometry) (fits : MetadataFits buf) :
    geometry.dataSectorCnt = bpbVolumeSectors buf - (bpbResSectorCnt buf + bpbFats buf + bpbRootSectors buf) := by
  have volume := bpbVolumeSectors_lt buf
  unfold MetadataFits at fits
  simp only [fatGeometry] at computed
  split at computed
  · cases computed
  · split at computed
    · cases computed
    · cases computed
      change u64Sub (u64Sub (u64Sub (bpbVolumeSectors buf) (bpbResSectorCnt buf)) (bpbFats buf))
        (bpbRootSectors buf) = _
      have first : u64Sub (bpbVolumeSectors buf) (bpbResSectorCnt buf) = bpbVolumeSectors buf - bpbResSectorCnt buf :=
        u64Sub_of_le (by omega) (by omega)
      have second : u64Sub (bpbVolumeSectors buf - bpbResSectorCnt buf) (bpbFats buf) =
          bpbVolumeSectors buf - bpbResSectorCnt buf - bpbFats buf := u64Sub_of_le (by omega) (by omega)
      rw [first, second, u64Sub_of_le (by omega) (by omega), Nat.sub_sub, Nat.sub_sub, ← Nat.add_assoc]

theorem fatGeometry_ok (computed : fatGeometry buf = .ok geometry) :
    geometry.sectorCnt = bpbVolumeSectors buf ∧ geometry.rootSectorCnt = bpbRootSectors buf ∧
      geometry.clusterCnt = geometry.dataSectorCnt / bpbClusterSize buf := by
  simp only [fatGeometry] at computed
  split at computed
  · cases computed
  · split at computed
    · cases computed
    · cases computed
      exact ⟨rfl, rfl, rfl⟩

theorem fatDriverCreate_geometry (accepted : fatVerify platform dev world = .ok (0, verified))
    (boot : readBootSector platform dev verified = .ok (0, buf, read))
    (created : fatDriverCreate platform dev world = .ok (.ok driver, last)) :
    ∃ geometry, fatGeometry buf = .ok geometry ∧ driver.sectorCnt = geometry.sectorCnt ∧
      driver.rootSectorCnt = geometry.rootSectorCnt ∧ driver.dataSectorCnt = geometry.dataSectorCnt ∧
      driver.clusterCnt = geometry.clusterCnt ∧ driver.clusterSize = bpbClusterSize buf ∧
      driver.firstDataSector = u64 (bpbResSectorCnt buf + bpbFats buf + geometry.rootSectorCnt) := by
  unfold fatDriverCreate at created
  simp only [accepted, boot, bind, Except.bind] at created
  cases computed : fatGeometry buf with
  | error stop =>
      rw [computed] at created
      cases created
  | ok geometry =>
      rw [computed] at created
      cases created
      exact ⟨geometry, rfl, rfl, rfl, rfl, rfl, rfl, rfl⟩

/-- The geometry of a volume that was accepted is consistent exactly when the sectors
in front of the data fit in the volume. -/
theorem fat_geometry_consistent_iff (platform : Platform World) (dev : Blkdev World) (driver : FatDriver World)
    (world verified read last : World) (buf : List UInt8)
    (accepted : fatVerify platform dev world = .ok (0, verified))
    (boot : readBootSector platform dev verified = .ok (0, buf, read))
    (created : fatDriverCreate platform dev world = .ok (.ok driver, last)) :
    GeometryConsistent driver buf ↔ MetadataFits buf := by
  obtain ⟨geometry, computed, sectors, root, data, clusters, size, first⟩ :=
    fatDriverCreate_geometry accepted boot created
  obtain ⟨volume, rootSectors, clusterCnt⟩ := fatGeometry_ok computed
  constructor
  · intro consistent
    have metadata := consistent.metadata
    rw [root, rootSectors, sectors, volume] at metadata
    exact metadata
  · intro fits
    have difference := fatGeometry_fits computed fits
    have small := bpbVolumeSectors_lt buf
    have whole : geometry.clusterCnt * bpbClusterSize buf ≤ geometry.dataSectorCnt := by
      rw [clusterCnt]
      exact Nat.div_mul_le_self _ _
    unfold MetadataFits at fits
    refine ⟨?_, ?_, ?_⟩
    · rw [root, rootSectors, sectors, volume]
      exact fits
    · rw [root, rootSectors, sectors, volume, data, difference]
      omega
    · rw [first, clusters, size, sectors, volume, rootSectors, u64_of_lt (by omega)]
      omega

end

theorem fat_geometry_consistent_iff_small : GeometryConsistent smallDriver smallBoot :=
  (fat_geometry_consistent_iff .zeroed smallDisk smallDriver () () () () smallBoot (by decide +kernel)
    (by decide +kernel) smallDriver_created).mpr (by decide +kernel)

def crowdedBoot : List UInt8 :=
  List.replicate 11 0 ++ [0, 2, 1, 1, 0, 1, 16, 0, 100, 0, 0, 200, 0] ++ List.replicate 486 0 ++ [0x55, 0xaa]

def crowdedDisk : Blkdev Unit := memoryDisk (fun _ => crowdedBoot) 100

/-- Its data region has 2^64 - 102 sectors. -/
def crowdedDriver : FatDriver Unit where
  blkCache := (blkCacheCreate .zeroed crowdedDisk ()).1
  fileDescs := Vector.replicate fatMaxFileDescs .zero
  sectorSize := 512
  clusterSize := 1
  firstDataSector := 202
  sectorCnt := 100
  rootSectorCnt := 1
  dataSectorCnt := 2 ^ 64 - 102
  clusterCnt := 2 ^ 64 - 102

theorem fat_geometry_underflow :
    crowdedBoot.length = 512 ∧ fatVerify .zeroed crowdedDisk () = .ok (0, ()) ∧
      fatDriverCreate .zeroed crowdedDisk () = .ok (.ok crowdedDriver, ()) ∧
      ¬GeometryConsistent crowdedDriver crowdedBoot := by
  have boot : readBootSector .zeroed crowdedDisk () = .ok (0, crowdedBoot, ()) := by decide +kernel
  have accepted : fatVerify .zeroed crowdedDisk () = .ok (0, ()) := by decide +kernel
  have geometry : fatGeometry crowdedBoot =
      .ok { sectorCnt := 100, rootSectorCnt := 1, dataSectorCnt := 2 ^ 64 - 102, clusterCnt := 2 ^ 64 - 102 } := by
    decide +kernel
  refine ⟨by decide +kernel, accepted, ?_, ?_⟩
  · unfold fatDriverCreate
    rw [accepted]
    simp only [bind, Except.bind, boot, geometry]
    rfl
  · intro consistent
    exact absurd consistent.metadata (by decide +kernel)

end Bwuhos
