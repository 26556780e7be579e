import Bwuhos.Fat.File
import Bwuhos.Fat.Geometry

namespace Bwuhos

open Bwuhos.Data

/-! # Where the clusters are

`cluster_to_pos` and `fat_get_root` on a driver whose fields come from a boot sector with
room for the metadata.
-/

/-- The fields of a driver as `fat_driver_create` computes them from a boot sector. -/
structure DriverOf {World : Type} (driver : FatDriver World) (buf : List UInt8) : Prop where
  geometry : fatGeometry buf = .ok
    { sectorCnt := driver.sectorCnt
      rootSectorCnt := driver.rootSectorCnt
      dataSectorCnt := driver.dataSectorCnt
      clusterCnt := driver.clusterCnt }
  sectorSize : driver.sectorSize = bpbSectorSize buf
  clusterSize : driver.clusterSize = bpbClusterSize buf
  firstDataSector : driver.firstDataSector =
    u64 (bpbResSectorCnt buf + bpbFatCnt buf * bpbFatSectors buf + driver.rootSectorCnt)

section

variable {World : Type} {platform : Platform World} {dev : Blkdev World} {driver : FatDriver World}
  {world verified read last : World} {buf : List UInt8} {cluster next : Nat}

theorem fatDriverCreate_driverOf (accepted : fatVerify platform dev world = .ok (0, verified))
    (boot : readBootSector platform dev verified = .ok (0, buf, read))
    (created : fatDriverCreate platform dev world = .ok (.ok driver, last)) : DriverOf driver buf := by
  unfold fatDriverCreate at created
  simp only [accepted, boot, bind, Except.bind] at created
  cases computed : fatGeometry buf with
  | error stop =>
      rw [computed] at created
      cases created
  | ok geometry =>
      rw [computed] at created
      cases created
      exact ⟨computed, rfl, rfl, rfl⟩

/-- The sectors in front of the data and the clusters fit in the volume. -/
structure ClustersFit (driver : FatDriver World) : Prop where
  sectorSize : driver.sectorSize = 512
  sectors : driver.sectorCnt < 2 ^ 32
  root : driver.rootSectorCnt ≤ driver.firstDataSector
  clusters : driver.firstDataSector + driver.clusterCnt * driver.clusterSize ≤ driver.sectorCnt
  clusterSize : 1 ≤ driver.clusterSize

/-- No operation of `fat_driver_create` wraps. -/
structure FieldsExact (driver : FatDriver World) (buf : List UInt8) : Prop where
  firstDataSector : driver.firstDataSector = bpbResSectorCnt buf + bpbFats buf + bpbRootSectors buf
  dataSectorCnt : driver.dataSectorCnt + driver.firstDataSector = driver.sectorCnt

theorem DriverOf.fieldsExact (made : DriverOf driver buf) (fits : MetadataFits buf) : FieldsExact driver buf := by
  obtain ⟨sectors, root, _⟩ := fatGeometry_ok made.geometry
  have data := fatGeometry_fits made.geometry fits
  have small := bpbVolumeSectors_lt buf
  dsimp only at sectors root data
  unfold MetadataFits at fits
  have first : driver.firstDataSector = bpbResSectorCnt buf + bpbFats buf + bpbRootSectors buf := by
    rw [made.firstDataSector, root]
    exact u64_of_lt (Nat.lt_trans (Nat.lt_of_le_of_lt fits small) (by decide))
  refine ⟨first, ?_⟩
  rw [data, first, sectors]
  exact Nat.sub_add_cancel fits

theorem DriverOf.clustersFit (made : DriverOf driver buf) (sectorSize : bpbSectorSize buf = 512)
    (fits : MetadataFits buf) (clusterSize : 1 ≤ bpbClusterSize buf) : ClustersFit driver := by
  obtain ⟨sectors, root, clusterCnt⟩ := fatGeometry_ok made.geometry
  have exactly := made.fieldsExact fits
  dsimp only at sectors root clusterCnt
  have whole : driver.clusterCnt * driver.clusterSize ≤ driver.dataSectorCnt := by
    rw [made.clusterSize, clusterCnt]
    exact Nat.div_mul_le_self _ _
  constructor
  · exact made.sectorSize.trans sectorSize
  · rw [sectors]
    exact bpbVolumeSectors_lt buf
  · rw [exactly.firstDataSector, root]
    exact Nat.le_add_left _ _
  · have data := exactly.dataSectorCnt
    omega
  · exact made.clusterSize ▸ clusterSize

/-- The position of a cluster, computed without wrapping, and where its bytes lie. -/
structure ClusterPlaced (driver : FatDriver World) (cluster : Nat) : Prop where
  offset : (cluster - 2) * driver.clusterSize < 2 ^ 64
  sector : driver.firstDataSector + (cluster - 2) * driver.clusterSize < 2 ^ 64
  position : 512 * (driver.firstDataSector + (cluster - 2) * driver.clusterSize) < 2 ^ 64
  exactly : clusterToPos driver cluster = 512 * (driver.firstDataSector + (cluster - 2) * driver.clusterSize)
  aligned : clusterToPos driver cluster % 512 = 0
  lower : 512 * driver.firstDataSector ≤ clusterToPos driver cluster
  upper : clusterToPos driver cluster + 512 * driver.clusterSize ≤ 512 * driver.sectorCnt

theorem ClustersFit.offset_le (fit : ClustersFit driver) (lower : 2 ≤ cluster)
    (upper : cluster ≤ driver.clusterCnt + 1) :
    driver.firstDataSector + (cluster - 2) * driver.clusterSize + driver.clusterSize ≤ driver.sectorCnt := by
  have whole : (cluster - 2) * driver.clusterSize + driver.clusterSize ≤ driver.clusterCnt * driver.clusterSize := by
    rw [← Nat.succ_mul]
    exact Nat.mul_le_mul_right _ (by omega)
  have clusters := fit.clusters
  omega

theorem ClustersFit.clusterCnt_lt (fit : ClustersFit driver) : driver.clusterCnt < 2 ^ 32 := by
  have whole := Nat.le_mul_of_pos_right driver.clusterCnt fit.clusterSize
  have clusters := fit.clusters
  have sectors := fit.sectors
  omega

theorem ClustersFit.placed (fit : ClustersFit driver) (lower : 2 ≤ cluster) (upper : cluster ≤ driver.clusterCnt + 1) :
    ClusterPlaced driver cluster := by
  have inside := fit.offset_le lower upper
  have sectors := fit.sectors
  have count := fit.clusterCnt_lt
  have exactly : clusterToPos driver cluster = 512 * (driver.firstDataSector + (cluster - 2) * driver.clusterSize) := by
    have offset : u64 ((cluster - 2) * driver.clusterSize) = (cluster - 2) * driver.clusterSize := u64_of_lt (by omega)
    have sector : u64 (driver.firstDataSector + (cluster - 2) * driver.clusterSize) =
        driver.firstDataSector + (cluster - 2) * driver.clusterSize := u64_of_lt (by omega)
    rw [clusterToPos, u64Sub_of_le lower (by omega), fit.sectorSize, offset, sector, u64_of_lt (by omega)]
  constructor
  · omega
  · omega
  · omega
  · exact exactly
  · rw [exactly, Nat.mul_mod_right]
  · rw [exactly]
    omega
  · rw [exactly]
    omega

theorem ClustersFit.fatGetRoot (fit : ClustersFit driver) :
    Bwuhos.fatGetRoot driver + 512 * driver.rootSectorCnt = 512 * driver.firstDataSector := by
  have root := fit.root
  have clusters := fit.clusters
  have sectors := fit.sectors
  rw [Bwuhos.fatGetRoot, u64Sub_of_le root (by omega), fit.sectorSize, u64_of_lt (by omega)]
  omega

theorem ClustersFit.increasing (fit : ClustersFit driver) (lower : 2 ≤ cluster) (order : cluster < next)
    (upper : next ≤ driver.clusterCnt + 1) :
    clusterToPos driver cluster + 512 * driver.clusterSize ≤ clusterToPos driver next := by
  have here := (fit.placed lower (by omega)).exactly
  have there := (fit.placed (by omega) upper).exactly
  have step : (cluster - 2) * driver.clusterSize + driver.clusterSize ≤ (next - 2) * driver.clusterSize := by
    rw [← Nat.succ_mul]
    exact Nat.mul_le_mul_right _ (by omega)
  omega

/-- The clusters of a volume follow each other behind the root directory, inside the volume. -/
theorem cluster_to_pos_partitions (made : DriverOf driver buf) (sectorSize : bpbSectorSize buf = 512)
    (fits : MetadataFits buf) (clusterSize : 1 ≤ bpbClusterSize buf) :
    FieldsExact driver buf ∧
      (∀ cluster, 2 ≤ cluster → cluster ≤ driver.clusterCnt + 1 → ClusterPlaced driver cluster) ∧
      (∀ cluster next, 2 ≤ cluster → cluster < next → next ≤ driver.clusterCnt + 1 →
        clusterToPos driver cluster + 512 * driver.clusterSize ≤ clusterToPos driver next) ∧
      driver.rootSectorCnt ≤ driver.firstDataSector ∧
      fatGetRoot driver + 512 * driver.rootSectorCnt = 512 * driver.firstDataSector := by
  have fit := made.clustersFit sectorSize fits clusterSize
  refine ⟨made.fieldsExact fits, fun cluster lower upper => fit.placed lower upper, ?_, fit.root, fit.fatGetRoot⟩
  intro cluster next lower order upper
  exact fit.increasing lower order upper

end

theorem smallDriver_driverOf : DriverOf smallDriver smallBoot :=
  @fatDriverCreate_driverOf Unit .zeroed smallDisk smallDriver () () () () smallBoot (by decide +kernel)
    (by decide +kernel) smallDriver_created

theorem cluster_to_pos_partitions_small :
    ClusterPlaced smallDriver 2 ∧
      clusterToPos smallDriver 2 + 512 * smallDriver.clusterSize ≤ clusterToPos smallDriver 3 := by
  obtain ⟨_, placed, increasing, _⟩ := cluster_to_pos_partitions smallDriver_driverOf (by decide +kernel)
    (by decide +kernel) (by decide +kernel)
  exact ⟨placed 2 (by decide) (by decide), increasing 2 3 (by decide) (by decide) (by decide)⟩

end Bwuhos
