import Bwuhos.BlkCache.LowMemory
import Bwuhos.Fat.Seek
import Bwuhos.Vfs

namespace Bwuhos

open Bwuhos.Data Kutil

/-! # Reads behind the end of a file

`fat_vfs_rd` checks the end of a read in 64-bit arithmetic.  A length that is negative as a
signed integer gets past the check, but no copy of so many bytes ends.
-/

section

variable {World : Type} (space : AddressSpace) (platform : Platform World)

/-- `fat_vfs_rd` in the memory of the kernel. -/
def fatVfsRdLow (s : FatState World) (low : LowMemory) (fid : Nat) (dst : BitVec 64) (n : Nat) :
    Except Stop (FileRd World × LowMemory) := do
  let slot ← fdIndex fid
  let fd := s.driver.fileDescs.get slot
  if fd.filePos ≥ fd.size then return ({ ret := 1, dst := [], read := none, state := s }, low)
  if u64 (fd.filePos + n) > fd.size then return ({ ret := 1, dst := [], read := none, state := s }, low)
  let rdPos := u64 (clusterToPos s.driver fd.cluster + fd.filePos)
  let (rd, low) ← blkCacheRdLow space platform s.driver.blkCache low dst rdPos n s.world
  let after := { driver := { s.driver with blkCache := rd.cache }, world := rd.world }
  return ({ ret := if rd.ret ≠ 0 then 1 else 0, dst := rd.dst, read := some rd, state := after }, low)

def vfsRdLow (vfs : Vfs World) (low : LowMemory) (file : VfsFile) (dst : BitVec 64) (n : Nat) :
    Except Stop (VfsRd World × LowMemory) :=
  if file.drive = 0 ∨ file.file = 0 then .ok ({ ret := 1, dst := [], read := none, vfs }, low)
  else
    match (vfs.drives.get file.slot).driver with
    | none => .error .nullDeref
    | some driver => do
        let isOpen ← fatVfsIsOpen driver file.file
        if !isOpen then return ({ ret := 1, dst := [], read := none, vfs }, low)
        let (read, low) ← fatVfsRdLow space platform { driver, world := vfs.world } low file.file dst n
        let after := { vfs.setDriver file.slot read.state.driver with world := read.state.world }
        return ({ ret := if read.ret ≠ 0 then 1 else 0, dst := read.dst, read := some read, vfs := after }, low)

end

section

variable {World : Type} {space : AddressSpace} {platform : Platform World} {s : FatState World} {vfs : Vfs World}
  {low after : LowMemory} {fid n : Nat} {file : VfsFile} {dst : BitVec 64} {rd : FileRd World} {result : VfsRd World}

theorem fatVfsRd_low (low : LowMemory) (spans : space.Spans dst n) (returned : fatVfsRd platform s fid n = .ok rd) :
    fatVfsRdLow space platform s low fid dst n = .ok (rd, low) := by
  obtain ⟨slot, index, rest⟩ := bind_eq_ok returned
  rw [fatVfsRdLow, index]
  simp only [bind, Except.bind] at rest ⊢
  split at rest
  · next ended =>
      cases rest
      exact if_pos ended
  · next started =>
      rw [if_neg started]
      split at rest
      · next beyond =>
          cases rest
          exact if_pos beyond
      · next within =>
          obtain ⟨read, cached, finished⟩ := bind_eq_ok rest
          cases finished
          rw [if_neg within, blkCacheRd_low low spans cached]
          rfl

/-- A read that returns without touching null returns the same in the memory of the kernel. -/
theorem vfsRd_low (low : LowMemory) (spans : space.Spans dst n) (returned : vfsRd platform vfs file n = .ok result) :
    vfsRdLow space platform vfs low file dst n = .ok (result, low) := by
  unfold vfsRd at returned
  unfold vfsRdLow
  by_cases unset : file.drive = 0 ∨ file.file = 0
  · rw [if_pos unset] at returned ⊢
    cases returned
    rfl
  · rw [if_neg unset] at returned ⊢
    cases driver : (vfs.drives.get file.slot).driver with
    | none =>
        rw [driver] at returned
        cases returned
    | some mounted =>
        rw [driver] at returned
        obtain ⟨isOpen, asked, rest⟩ := bind_eq_ok returned
        refine (congrArg (· >>= _) asked).trans ?_
        split at rest
        · next closed =>
            cases rest
            exact if_pos closed
        · next opened =>
            obtain ⟨read, called, finished⟩ := bind_eq_ok rest
            cases finished
            exact (if_neg opened).trans (congrArg (· >>= _) (fatVfsRd_low low spans called))

/-- What a read that returns 0 has gone through: the check of the code, and a copy that ended. -/
theorem fatVfsRdLow_served {slot : Fin fatMaxFileDescs}
    (returned : fatVfsRdLow space platform s low (slot + 1) dst n = .ok (rd, after)) (served : rd.ret = 0) :
    u64 ((s.driver.fileDescs.get slot).filePos + n) ≤ (s.driver.fileDescs.get slot).size ∧ space.Spans dst n := by
  unfold fatVfsRdLow at returned
  rw [fdIndex_slot] at returned
  simp only [bind, Except.bind] at returned
  split at returned
  · cases returned
    cases served
  · split at returned
    · cases returned
      cases served
    · next within =>
        obtain ⟨⟨read, memory⟩, cached, finished⟩ := bind_eq_ok returned
        cases finished
        refine ⟨Nat.le_of_not_lt within, blkCacheRdLow_spans cached ?_⟩
        by_contra failed
        exact absurd ((if_pos failed).symm.trans served) Nat.one_ne_zero

theorem vfsRdLow_served (returned : vfsRdLow space platform vfs low file dst n = .ok (result, after))
    (served : result.ret = 0) : ∃ driver, (vfs.drives.get file.slot).driver = some driver ∧ ∃ rd memory,
      fatVfsRdLow space platform { driver, world := vfs.world } low file.file dst n = .ok (rd, memory) ∧
        rd.ret = 0 := by
  unfold vfsRdLow at returned
  split at returned
  · cases returned
    cases served
  · split at returned
    · cases returned
    · next driver mounted =>
        obtain ⟨isOpen, _, rest⟩ := bind_eq_ok returned
        dsimp only at rest
        split at rest
        · cases rest
          cases served
        · obtain ⟨⟨rd, memory⟩, called, finished⟩ := bind_eq_ok rest
          cases finished
          refine ⟨driver, mounted, rd, memory, called, ?_⟩
          by_contra failed
          exact absurd ((if_pos failed).symm.trans served) Nat.one_ne_zero

theorem served_inside {fd : FatFileDesc} (sized : fd.size < 2 ^ 32) (inside : fd.filePos ≤ fd.size)
    (within : u64 (fd.filePos + n) ≤ fd.size) (spans : space.Spans dst n) : fd.filePos + n ≤ fd.size := by
  -- fewer than 2^48 bytes do not bring the sum to 2^64
  have short := spans.bound
  rwa [u64_of_lt (by omega)] at within

/-- In every reachable state of a driver, also through `vfs_rd`. -/
theorem vfs_rd_inside {dev : Blkdev World} {session : FatSession World} {slot : Fin fatMaxFileDescs}
    (reached : (fatSystem platform dev).Reachable session)
    (mounted : (vfs.drives.get file.slot).driver = some session.driver) (fid : file.file = slot + 1)
    (returned : vfsRdLow space platform vfs low file dst n = .ok (result, after)) (served : result.ret = 0) :
    (session.driver.fileDescs.get slot).filePos + n ≤ (session.driver.fileDescs.get slot).size := by
  obtain ⟨driver, same, rd, memory, called, ret⟩ := vfsRdLow_served returned served
  cases mounted.symm.trans same
  rw [fid] at called
  obtain ⟨within, spans⟩ := fatVfsRdLow_served called ret
  have bounds := ((fat_reachable_ok reached).slots slot).bounds
  exact served_inside bounds.1 bounds.2 within spans

end

end Bwuhos
