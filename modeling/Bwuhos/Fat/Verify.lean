import Bwuhos.Fat.Runs

namespace Bwuhos

open Bwuhos.Data

/-! # Which boot sectors are accepted

The verdict of `fat_verify` on a device whose contents do not change.
-/

section

variable {World : Type} {platform : Platform World} {dev : Blkdev World} {contents : Nat → List UInt8}
  {world last : World} {buf : List UInt8} {ret : Nat}

theorem fatDriverCreate_accepts {code : Nat} (delivers : Delivers dev contents) (bound : dev.nblk < 2 ^ 64)
    (accepted : dev.blkSize = 512 ∧ dev.nblk ≠ 0 ∧ fatBoot (contents 0) = true) :
    fatDriverCreate platform dev world ≠ .ok (.error code, last) := by
  intro returned
  obtain ⟨⟨rejected, verified⟩, verify, rest⟩ := bind_eq_ok returned
  dsimp only at rest
  rw [if_neg (not_not.mpr ((fatVerify_spec delivers bound verify).mpr accepted))] at rest
  obtain ⟨⟨ret, buf, read⟩, boot, rest⟩ := bind_eq_ok rest
  have succeeded : ¬ret ≠ 0 := fun failed => accepted.2.1 ((readBootSector_ret boot).mp failed)
  dsimp only at rest
  rw [if_neg succeeded] at rest
  obtain ⟨geometry, _, finished⟩ := bind_eq_ok rest
  cases finished

theorem readBootSector_returns (platform : Platform World) (delivers : Delivers dev contents)
    (blkSize : dev.blkSize = 512) (bound : dev.nblk < 2 ^ 64) (world : World) :
    ∃ ret buf last, readBootSector platform dev world = .ok (ret, buf, last) := by
  unfold readBootSector
  dsimp only
  by_cases empty : dev.nblk = 0
  · have failed : (blkdevRd dev 0 1 world).ret ≠ 0 := by
      rw [blkdevRd_ret, empty]
      decide
    rw [(blkdevRd_failed rfl failed).2, Buffer.write_nil]
    exact ⟨_, _, _, rfl⟩
  · have data := (delivers.blkdevRd world (show 0 + 1 ≤ dev.nblk by omega) bound).2
    rw [List.range'_one, List.flatMap_singleton] at data
    have full : (contents 0).length = (platform.uninit 512 world).val.length := by
      rw [delivers.sized, blkSize, (platform.uninit 512 world).property]
    rw [data, Buffer.write_full full]
    exact ⟨_, _, _, rfl⟩

theorem fatGeometry_returns {buf : List UInt8} (sectors : bpbSectorSize buf = 512)
    (clusters : bpbClusterSize buf ≠ 0) :
    ∃ geometry, fatGeometry buf = .ok geometry := by
  have sized : bpbSectorSize buf ≠ 0 := by omega
  simp only [fatGeometry, if_neg sized, if_neg clusters]
  exact ⟨_, rfl⟩

/-- A sector that passes every test before the division by its cluster size, which is 0. -/
def DividesByZero (buf : List UInt8) : Prop :=
  le16 buf 510 = 0xaa55 ∧ bpbSectorSize buf = 512 ∧ bpbFatSectors buf ≠ 0 ∧ bpbClusterSize buf = 0

theorem fatGeometry_divides {buf : List UInt8} (sectors : bpbSectorSize buf = 512)
    (clusters : bpbClusterSize buf = 0) : fatGeometry buf = .error .divByZero := by
  have sized : bpbSectorSize buf ≠ 0 := by omega
  simp only [fatGeometry, if_neg sized, if_pos clusters]

theorem fatVerify_cases (read : readBootSector platform dev world = .ok (ret, buf, last)) :
    (dev.blkSize = 512 ∧ ret = 0 ∧ DividesByZero buf ∧ fatVerify platform dev world = .error .divByZero) ∨
      ¬(dev.blkSize = 512 ∧ ret = 0 ∧ DividesByZero buf) ∧
        ∃ rejected after, fatVerify platform dev world = .ok (rejected, after) := by
  unfold fatVerify
  by_cases supported : dev.blkSize = 512
  · rw [if_neg (not_not.mpr supported), read]
    simp only [bind, Except.bind]
    by_cases succeeded : ret = 0
    · rw [if_neg (not_not.mpr succeeded)]
      by_cases signed : le16 buf 510 = 0xaa55
      · rw [if_neg (not_not.mpr signed)]
        by_cases sectorSize : bpbSectorSize buf = 512
        · rw [if_neg (not_not.mpr sectorSize)]
          by_cases fatSectors : bpbFatSectors buf = 0
          · rw [if_pos fatSectors]
            exact Or.inr ⟨fun wrong => wrong.2.2.2.2.1 fatSectors, _, _, rfl⟩
          · rw [if_neg fatSectors]
            by_cases clusters : bpbClusterSize buf = 0
            · rw [fatGeometry_divides sectorSize clusters]
              exact Or.inl ⟨supported, succeeded, ⟨signed, sectorSize, fatSectors, clusters⟩, rfl⟩
            · refine Or.inr ⟨fun wrong => clusters wrong.2.2.2.2.2, ?_⟩
              obtain ⟨geometry, computed⟩ := fatGeometry_returns sectorSize clusters
              rw [computed]
              dsimp only
              split
              · exact ⟨_, _, rfl⟩
              · split <;> exact ⟨_, _, rfl⟩
        · rw [if_pos sectorSize]
          exact Or.inr ⟨fun wrong => sectorSize wrong.2.2.2.1, _, _, rfl⟩
      · rw [if_pos signed]
        exact Or.inr ⟨fun wrong => signed wrong.2.2.1, _, _, rfl⟩
    · rw [if_pos succeeded]
      exact Or.inr ⟨fun wrong => succeeded wrong.2.1, _, _, rfl⟩
  · rw [if_pos supported]
    exact Or.inr ⟨fun wrong => supported wrong.1, _, _, rfl⟩

/-- Whatever the boot sector, `fat_verify` divides by zero or it comes to a verdict, and
which of them depends on the sector alone once it has been read. -/
theorem fat_verify_verdict_iff (read : readBootSector platform dev world = .ok (ret, buf, last)) :
    (fatVerify platform dev world = .error .divByZero ↔ dev.blkSize = 512 ∧ ret = 0 ∧ DividesByZero buf) ∧
      ((∃ rejected after, fatVerify platform dev world = .ok (rejected, after)) ↔
        ¬(dev.blkSize = 512 ∧ ret = 0 ∧ DividesByZero buf)) := by
  rcases fatVerify_cases read with ⟨blkSize, ret, divides, stopped⟩ | ⟨safe, rejected, after, returned⟩
  · rw [stopped]
    refine ⟨iff_of_true rfl ⟨blkSize, ret, divides⟩, iff_of_false (fun verdict => ?_) fun safe => ?_⟩
    · obtain ⟨_, _, impossible⟩ := verdict
      cases impossible
    · exact safe ⟨blkSize, ret, divides⟩
  · rw [returned]
    exact ⟨iff_of_false (fun impossible => by cases impossible) safe, iff_of_true ⟨rejected, after, rfl⟩ safe⟩

theorem fatVerify_returns (platform : Platform World) (delivers : Delivers dev contents) (bound : dev.nblk < 2 ^ 64)
    (clusters : dev.blkSize = 512 → dev.nblk ≠ 0 → bpbClusterSize (contents 0) ≠ 0) (world : World) :
    ∃ rejected last, fatVerify platform dev world = .ok (rejected, last) := by
  by_cases supported : dev.blkSize = 512
  · obtain ⟨ret, buf, last, boot⟩ := readBootSector_returns platform delivers supported bound world
    rcases fatVerify_cases boot with ⟨_, succeeded, divides, _⟩ | ⟨_, returned⟩
    · rw [succeeded] at boot
      have present : dev.nblk ≠ 0 := fun empty => (readBootSector_ret boot).mpr empty rfl
      obtain rfl := readBootSector_spec delivers supported bound boot
      exact absurd divides.2.2.2 (clusters supported present)
    · exact returned
  · exact ⟨1, world, if_pos supported⟩

theorem fatDriverCreate_returns (platform : Platform World) (delivers : Delivers dev contents)
    (bound : dev.nblk < 2 ^ 64)
    (clusters : dev.blkSize = 512 → dev.nblk ≠ 0 → bpbClusterSize (contents 0) ≠ 0) (world : World) :
    ∃ made last, fatDriverCreate platform dev world = .ok (made, last) := by
  obtain ⟨rejected, verified, verify⟩ := fatVerify_returns platform delivers bound clusters world
  unfold fatDriverCreate
  rw [verify]
  simp only [bind, Except.bind]
  split
  · exact ⟨_, _, rfl⟩
  · next accepted =>
      obtain ⟨blkSize, present, boot⟩ := (fatVerify_spec delivers bound verify).mp (not_not.mp accepted)
      obtain ⟨ret, buf, read, readBoot⟩ := readBootSector_returns platform delivers blkSize bound verified
      rw [readBoot]
      dsimp only
      split
      · exact ⟨_, _, rfl⟩
      · next succeeded =>
          rw [not_not.mp succeeded] at readBoot
          obtain rfl := readBootSector_spec delivers blkSize bound readBoot
          obtain ⟨geometry, computed⟩ := fatGeometry_returns (fatBoot_iff.mp boot).2.1 (clusters blkSize present)
          rw [computed]
          exact ⟨_, _, rfl⟩

end

def unclusteredBoot : List UInt8 := smallBoot.set 13 0

theorem fat_verify_verdict_iff_small : ∃ rejected after, fatVerify .zeroed smallDisk () = .ok (rejected, after) :=
  (fat_verify_verdict_iff (show readBootSector .zeroed smallDisk () = .ok (0, smallBoot, ()) by decide +kernel)).2.mpr
    fun divides => absurd divides.2.2.2.2.2 (by decide +kernel)

theorem fat_verify_divides_by_zero :
    fatVerify .zeroed (memoryDisk (fun _ => unclusteredBoot) 4) () = .error .divByZero ∧
      ¬∃ rejected after, fatVerify .zeroed (memoryDisk (fun _ => unclusteredBoot) 4) () = .ok (rejected, after) := by
  have stopped : fatVerify .zeroed (memoryDisk (fun _ => unclusteredBoot) 4) () = .error .divByZero := by
    decide +kernel
  refine ⟨stopped, fun verdict => ?_⟩
  obtain ⟨_, _, returned⟩ := verdict
  cases stopped.symm.trans returned

end Bwuhos
