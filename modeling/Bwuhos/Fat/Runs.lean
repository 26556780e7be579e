import Bwuhos.BlkCache.Bounds
import Bwuhos.Fat.OpenFiles

namespace Bwuhos

open Bwuhos.Data

/-! # Runs of a mounted driver -/

/-- A boot sector that `fat_verify` accepts. -/
def fatBoot (buf : List UInt8) : Bool :=
  le16 buf 510 = 0xaa55 && bpbSectorSize buf = 512 && bpbFatSectors buf ≠ 0 &&
    match fatGeometry buf with
    | .error _ => false
    | .ok geometry => geometry.sectorCnt ≠ 0 && 4085 ≤ geometry.clusterCnt

section Create

variable {World : Type} {platform : Platform World} {dev : Blkdev World} {contents : Nat → List UInt8}
  {driver : FatDriver World} {world last : World} {buf : List UInt8} {ret : Nat}

theorem fatDriverCreate_ok (created : fatDriverCreate platform dev world = .ok (.ok driver, last)) :
    driver.fileDescs = Vector.replicate fatMaxFileDescs .zero ∧
      (∃ world, driver.blkCache = (blkCacheCreate platform dev world).1) ∧
      ∃ verified buf read, fatVerify platform dev world = .ok (0, verified) ∧
        readBootSector platform dev verified = .ok (0, buf, read) ∧ driver.sectorSize = bpbSectorSize buf := by
  obtain ⟨⟨rejected, verified⟩, verify, rest⟩ := bind_eq_ok created
  simp only at rest
  split at rest
  · cases rest
  · next accepted =>
      obtain ⟨⟨ret, buf, read⟩, boot, rest⟩ := bind_eq_ok rest
      simp only at rest
      split at rest
      · cases rest
      · next succeeded =>
          obtain ⟨geometry, _, finished⟩ := bind_eq_ok rest
          cases finished
          rw [not_not.mp accepted] at verify
          rw [not_not.mp succeeded] at boot
          exact ⟨rfl, ⟨read, rfl⟩, verified, buf, read, verify, boot, rfl⟩

theorem readBootSector_spec (delivers : Delivers dev contents) (blkSize : dev.blkSize = 512)
    (bound : dev.nblk < 2 ^ 64) (returned : readBootSector platform dev world = .ok (0, buf, last)) :
    buf = contents 0 := by
  obtain ⟨filled, written, finished⟩ := bind_eq_ok returned
  have values := Prod.mk.inj (Except.ok.inj finished)
  obtain ⟨ret, rfl⟩ := And.intro values.1 (Prod.mk.inj values.2).1
  have accepted : 0 + 1 ≤ dev.nblk := by
    by_contra outside
    unfold blkdevRd at ret
    rw [if_pos (by rw [u64_of_lt (by decide)]; omega)] at ret
    cases ret
  have data := (delivers.blkdevRd world accepted bound).2
  rw [List.range'_one, List.flatMap_singleton] at data
  have full : (contents 0).length = (platform.uninit 512 world).val.length := by
    rw [delivers.sized, blkSize, (platform.uninit 512 world).property]
  rw [data, Buffer.write_full full] at written
  rw [← Except.ok.inj written]
  rfl

theorem readBootSector_ret (returned : readBootSector platform dev world = .ok (ret, buf, last)) :
    ret ≠ 0 ↔ dev.nblk = 0 := by
  obtain ⟨filled, _, finished⟩ := bind_eq_ok returned
  cases finished
  rw [blkdevRd_ret, u64_of_lt (by decide)]
  omega

theorem fatBoot_iff : fatBoot buf = true ↔ le16 buf 510 = 0xaa55 ∧ bpbSectorSize buf = 512 ∧ bpbFatSectors buf ≠ 0 ∧
    ∃ geometry, fatGeometry buf = .ok geometry ∧ geometry.sectorCnt ≠ 0 ∧ 4085 ≤ geometry.clusterCnt := by
  rw [fatBoot]
  cases fatGeometry buf with
  | error stop => simp
  | ok geometry => simp [and_assoc]

theorem fatVerify_spec {rejected : Nat} (delivers : Delivers dev contents) (bound : dev.nblk < 2 ^ 64)
    (returned : fatVerify platform dev world = .ok (rejected, last)) :
    rejected = 0 ↔ dev.blkSize = 512 ∧ dev.nblk ≠ 0 ∧ fatBoot (contents 0) = true := by
  have rejects : ∀ {holds : Prop}, ¬holds → (1 = 0 ↔ holds) := fun fails => iff_of_false Nat.one_ne_zero fails
  unfold fatVerify at returned
  by_cases supported : dev.blkSize = 512
  · rw [if_neg (not_not.mpr supported)] at returned
    obtain ⟨⟨ret, buf, read⟩, boot, rest⟩ := bind_eq_ok returned
    have empty := readBootSector_ret boot
    dsimp only at rest
    by_cases succeeded : ret = 0
    · rw [if_neg (not_not.mpr succeeded)] at rest
      rw [succeeded] at boot
      obtain rfl := readBootSector_spec delivers supported bound boot
      have present : dev.nblk ≠ 0 := fun none => empty.mpr none succeeded
      rw [and_iff_right supported, and_iff_right present, fatBoot_iff]
      by_cases signed : le16 (contents 0) 510 = 0xaa55
      · rw [if_neg (not_not.mpr signed)] at rest
        by_cases sectorSize : bpbSectorSize (contents 0) = 512
        · rw [if_neg (not_not.mpr sectorSize)] at rest
          by_cases sectors : bpbFatSectors (contents 0) = 0
          · rw [if_pos sectors] at rest
            cases rest
            exact rejects fun accepted => accepted.2.2.1 sectors
          · rw [if_neg sectors] at rest
            obtain ⟨geometry, computed, rest⟩ := bind_eq_ok rest
            simp only [computed, Except.ok.injEq, exists_eq_left']
            split at rest
            · next volume =>
                cases rest
                exact rejects fun accepted => accepted.2.2.2.1 volume
            · split at rest
              · next few =>
                  cases rest
                  exact rejects fun accepted => Nat.not_lt_of_le accepted.2.2.2.2 few
              · next volume many =>
                  cases rest
                  exact iff_of_true rfl ⟨signed, sectorSize, sectors, volume, Nat.le_of_not_lt many⟩
        · rw [if_pos sectorSize] at rest
          cases rest
          exact rejects fun accepted => sectorSize accepted.2.1
      · rw [if_pos signed] at rest
        cases rest
        exact rejects fun accepted => signed accepted.1
    · rw [if_pos succeeded] at rest
      cases rest
      exact rejects fun accepted => accepted.2.1 (empty.mp succeeded)
  · rw [if_pos supported] at returned
    cases returned
    exact rejects fun accepted => supported accepted.1

theorem fatDriverCreate_sectorSize (volume : Volume dev contents)
    (created : fatDriverCreate platform dev world = .ok (.ok driver, last)) : driver.sectorSize = 512 := by
  obtain ⟨_, _, verified, buf, read, verify, boot, same⟩ := fatDriverCreate_ok created
  have accepted := (fatVerify_spec volume.delivers volume.nblk_lt verify).mp rfl
  rw [same, readBootSector_spec volume.delivers volume.blkSize volume.nblk_lt boot]
  exact (fatBoot_iff.mp accepted.2.2).2.1

end Create

structure FatSession (World : Type) where
  driver : FatDriver World
  issued : List Nat

/-- The histories of a driver: `fat_driver_create`, then allowed calls with what they
return.  The world may change in any way between two calls. -/
def fatSystem {World : Type} (platform : Platform World) (dev : Blkdev World) :
    TransitionSystem (FatSession World) (FatCall × Nat) where
  initial session :=
    ∃ world last, fatDriverCreate platform dev world = .ok (.ok session.driver, last) ∧ session.issued = []
  step before label after := label.1.Allowed before.issued ∧ ∃ fuel uninit world state,
    label.1.run platform fuel uninit { driver := before.driver, world } = .ok (label.2, state) ∧
      after = { driver := state.driver, issued := label.1.issues label.2 ++ before.issued }

structure SessionOk {World : Type} (platform : Platform World) (dev : Blkdev World) (session : FatSession World) :
    Prop where
  slots : ∀ slot : Fin fatMaxFileDescs, SlotOk (session.driver.fileDescs.get slot)
  handles : ∀ fid ∈ session.issued, ∃ slot : Fin fatMaxFileDescs, fid = slot + 1
  created : ∃ world first last, fatDriverCreate platform dev world = .ok (.ok first, last) ∧
    session.driver = { first with fileDescs := session.driver.fileDescs, blkCache := session.driver.blkCache } ∧
    Relation.ReflTransGen (CacheStep platform) first.blkCache session.driver.blkCache

section Runs

variable {World : Type} {platform : Platform World} {dev : Blkdev World} {contents : Nat → List UInt8}
  {before after session : FatSession World} {call : FatCall} {ret : Nat}

theorem SessionOk.initial (starts : (fatSystem platform dev).initial session) : SessionOk platform dev session := by
  obtain ⟨world, last, created, none⟩ := starts
  refine ⟨fun slot => ?_, fun fid issued => ?_, world, session.driver, last, created, rfl, .refl⟩
  · rw [(fatDriverCreate_ok created).1, Table.get_replicate]
    exact .zero
  · rw [none] at issued
    cases issued

theorem SessionOk.step (ok : SessionOk platform dev before)
    (taken : (fatSystem platform dev).step before (call, ret) after) :
    SessionOk platform dev after ∧ call.Isolated before.driver.fileDescs after.driver.fileDescs ret := by
  obtain ⟨allowed, fuel, uninit, world, state, returned, rfl⟩ := taken
  obtain ⟨slots, handles, created, first, last, made, same, reads⟩ := ok
  have effect := FatCall.run_effect slots handles allowed returned
  refine ⟨⟨effect.slots, fun fid issued => ?_, created, first, last, made, ?_, reads.trans effect.cache⟩,
    effect.isolated⟩
  · rcases List.mem_append.mp issued with new | old
    · cases call with
      | openFile path flags =>
          simp only [FatCall.issues] at new
          split at new
          · cases new
          · next opened =>
              obtain ⟨slot, number, _⟩ := effect.isolated.resolve_left (fun failed => opened failed.1)
              exact ⟨slot, (List.mem_singleton.mp new).trans number⟩
      | close => cases new
      | seek => cases new
      | absTell => cases new
      | rd => cases new
    · exact handles fid old
  · rw [effect.driver]
    simp only
    rw [same]

theorem fat_reachable_ok (reached : (fatSystem platform dev).Reachable session) : SessionOk platform dev session :=
  reached.invariant (SessionOk platform dev) (fun _ => .initial) fun _ _ _ _ ok taken => (ok.step taken).1

theorem SessionOk.coherent (ok : SessionOk platform dev session) (volume : Volume dev contents)
    (allocated : session.driver.blkCache.buf ≠ none) : Coherent session.driver.blkCache dev contents := by
  obtain ⟨_, first, _, made, _, reads⟩ := ok.created
  obtain ⟨_, ⟨world, fresh⟩, _⟩ := fatDriverCreate_ok made
  refine Coherent.reads ?_ volume.delivers volume.nblk_lt reads
  rw [fresh] at reads ⊢
  exact (blkCacheCreate_coherent world).resolve_left fun null => allocated ((reads_null reads).mpr null)

theorem reads_blkdev {cache last : BlkCache World} (reads : Relation.ReflTransGen (CacheStep platform) cache last) :
    last.blkdev = cache.blkdev := by
  induction reads with
  | refl => rfl
  | tail _ step ih =>
      obtain ⟨_, _, _, result, returned, same⟩ := step
      rw [same, blkCacheRd_blkdev returned, ih]

theorem SessionOk.blkdev (ok : SessionOk platform dev session) : session.driver.blkCache.blkdev = dev := by
  obtain ⟨_, first, _, made, _, reads⟩ := ok.created
  obtain ⟨_, ⟨world, fresh⟩, _⟩ := fatDriverCreate_ok made
  rw [reads_blkdev reads, fresh]
  rfl

theorem SessionOk.sectorSize (ok : SessionOk platform dev session) (volume : Volume dev contents) :
    session.driver.sectorSize = 512 := by
  obtain ⟨_, first, _, made, same, _⟩ := ok.created
  have sectors : first.sectorSize = 512 := fatDriverCreate_sectorSize volume made
  rw [same]
  exact sectors

/-- At a standard entry, or at a deleted one before it, `fat_get_dirent_info` can only return
what the standard entry says, and does so if the block cache has a buffer. -/
theorem SessionOk.getDirentInfo {pos index fuel : Nat} (ok : SessionOk platform dev session)
    (volume : Volume dev contents) (world : World) (aligned : pos % 32 = 0)
    (inside : pos + 32 * index < dev.nblk * 512)
    (deleted : ∀ earlier < index, byteAt (entAt contents (pos + 32 * earlier)) 0 = 0xe5)
    (standard : StandardEnt (entAt contents (pos + 32 * index))) (enough : index < fuel) :
    (session.driver.blkCache.buf ≠ none →
      ∃ returned, fatGetDirentInfo platform fuel { driver := session.driver, world } pos = .ok returned) ∧
    ∀ returned, fatGetDirentInfo platform fuel { driver := session.driver, world } pos = .ok returned →
      returned.1 =
        some { pos := pos + 32 * index, info := direntInfo emptyName (entAt contents (pos + 32 * index)) } := by
  by_cases null : session.driver.blkCache.buf = none
  · have stopped := @fatGetDirentInfo_null World dev contents { driver := session.driver, world } pos fuel platform
      volume aligned (by omega) ok.blkdev null (by omega)
    rw [stopped]
    exact ⟨fun buffer => absurd null buffer, fun _ wrong => by cases wrong⟩
  · obtain ⟨after, got⟩ := @fatGetDirentInfo_standard World dev contents { driver := session.driver, world } pos fuel
      index platform volume aligned inside (ok.coherent volume null) deleted standard enough
    rw [got]
    refine ⟨fun _ => ⟨_, rfl⟩, fun returned same => ?_⟩
    cases same
    rfl

/-- In every reachable state the descriptors are sound, every call stays with its own
descriptor, and on a volume an open of a path that resolves to a file with permitted flags
fails only where all descriptors are open. -/
theorem fat_open_files (platform : Platform World) (dev : Blkdev World) (session : FatSession World)
    (reached : (fatSystem platform dev).Reachable session) :
    (∀ slot : Fin fatMaxFileDescs, SlotOk (session.driver.fileDescs.get slot)) ∧
      (∀ call ret after, (fatSystem platform dev).step session (call, ret) after →
        call.Isolated session.driver.fileDescs after.driver.fileDescs ret) ∧
      ∀ contents path deInfo flags, Volume dev contents → session.driver.blkCache.buf ≠ none →
        Resolves contents dev.nblk (clusterToPos session.driver) (fatGetRoot session.driver) (pathComponents [] path)
          deInfo →
        (∀ name ∈ pathComponents [] path, name.length < 256) → ¬[0x2f, 0x2f] <:+ path →
        deInfo.attr &&& fdaDir = 0 → (flags &&& vffWrite ≠ 0 → deInfo.attr &&& fdaRo = 0) →
        ∀ fuel > dev.nblk * 512, ∀ uninit world, ∃ ret after,
          fatVfsOpen platform fuel uninit { driver := session.driver, world } path flags = .ok (ret, after) ∧
            (ret = 0 → ∀ slot : Fin fatMaxFileDescs, (session.driver.fileDescs.get slot).IsOpen) := by
  have ok := fat_reachable_ok reached
  refine ⟨ok.slots, fun call ret after taken => (ok.step taken).2, ?_⟩
  intro contents path deInfo flags volume allocated resolves short plain file permitted fuel enough uninit world
  obtain ⟨after, opened, only⟩ := fatVfsOpen_spec platform uninit flags (s := { driver := session.driver, world })
    volume (ok.coherent volume allocated) (ok.sectorSize volume) enough
    resolves short plain
  refine ⟨_, _, opened, fun failed slot => ?_⟩
  rw [← only.fileDescs]
  exact openDirent_full file permitted failed slot

end Runs

/-- The geometry of a disk of this size comes from its boot sector alone. -/
theorem bootDisk_created {contents : Nat → List UInt8} (boot : contents 0 = smallBoot) :
    fatDriverCreate .zeroed (memoryDisk contents 4100) () =
      .ok (.ok { smallDriver with blkCache := (blkCacheCreate .zeroed (memoryDisk contents 4100) ()).1 }, ()) := by
  have sector : readBootSector .zeroed (memoryDisk contents 4100) () = readBootSector .zeroed smallDisk () := by
    have block : (List.range' 0 1).flatMap contents = (List.range' 0 1).flatMap smallContents := by
      simp only [List.range'_one, List.flatMap_singleton, boot]
      rfl
    simp only [readBootSector, blkdevRd, smallDisk, memoryDisk_addr]
    simp only [memoryDisk, block]
    rfl
  have read : readBootSector .zeroed smallDisk () = .ok (0, smallBoot, ()) := by decide +kernel
  have verified : fatVerify .zeroed (memoryDisk contents 4100) () = .ok (0, ()) := by
    have same : fatVerify .zeroed (memoryDisk contents 4100) () = fatVerify .zeroed smallDisk () := by
      rw [fatVerify, sector]
      rfl
    rw [same, fatVerify, read]
    decide +kernel
  have geometry : fatGeometry smallBoot =
      .ok { sectorCnt := 4100, rootSectorCnt := 1, dataSectorCnt := 4097, clusterCnt := 4097 } := by
    decide +kernel
  unfold fatDriverCreate
  rw [verified]
  simp only [bind, Except.bind, sector, read, geometry]
  rfl

theorem smallDriver_created : fatDriverCreate .zeroed smallDisk () = .ok (.ok smallDriver, ()) := bootDisk_created rfl

theorem smallDriver_reachable : (fatSystem .zeroed smallDisk).Reachable { driver := smallDriver, issued := [] } :=
  .initial ⟨(), (), smallDriver_created, rfl⟩

def rootContents (root : List UInt8) (blk : Nat) : List UInt8 := if blk = 2 then padBlock root else smallContents blk

def rootDisk (root : List UInt8) : Blkdev Unit := memoryDisk (rootContents root) 4100

def rootDriver (root : List UInt8) : FatDriver Unit :=
  { smallDriver with blkCache := (blkCacheCreate .zeroed (rootDisk root) ()).1 }

theorem rootDriver_reachable (root : List UInt8) :
    (fatSystem .zeroed (rootDisk root)).Reachable { driver := rootDriver root, issued := [] } :=
  .initial ⟨(), (), bootDisk_created rfl, rfl⟩

theorem rootDriver_allocated (root : List UInt8) : (rootDriver root).blkCache.buf ≠ none := by
  simp [rootDriver, blkCacheCreate, Platform.alloc, Platform.zeroed]

theorem rootDisk_volume {root : List UInt8} (short : root.length ≤ 512) :
    Volume (rootDisk root) (rootContents root) := by
  have sized : ∀ blk, (rootContents root blk).length = 512 := fun blk => by
    unfold rootContents
    split
    · exact padBlock_length short
    · exact smallContents_sized blk
  have bounded : 4100 * 512 < 2 ^ 64 := by decide
  exact ⟨memoryDisk_delivers sized 4100, rfl, bounded⟩

theorem small_resolves : ∃ deInfo, Resolves smallContents 4100 (clusterToPos smallDriver) (fatGetRoot smallDriver)
      (pathComponents [] [0x64, 0x2f, 0x62, 0x2e, 0x74, 0x78, 0x74]) deInfo ∧
    deInfo.attr = 0x20 ∧ deInfo.size = 7 := by
  have directory : ∃ logical, Finds smallContents 4100 1024 [0x64] logical ∧ logical.dirent.info.attr = 0x10 ∧
      logical.dirent.info.cluster = 3 := by
    have found : ((firstNamed [0x64] (listing smallContents 4100 1024)).map fun logical =>
        (logical.dirent.info.attr, logical.dirent.info.cluster)) = some (0x10, 3) := by
      rw [listing, logicalEnts_upTo (show 3 < _ by decide) (by decide +kernel)]
      decide +kernel
    obtain ⟨logical, first, values⟩ := Option.map_eq_some_iff.mp found
    have values := Prod.mk.inj values
    exact ⟨logical, ⟨by decide, by decide, smallRoot_met _ _, first⟩, values⟩
  have file : ∃ logical, Finds smallContents 4100 2048 [0x62, 0x2e, 0x74, 0x78, 0x74] logical ∧
      logical.dirent.info.attr = 0x20 ∧ logical.dirent.info.size = 7 := by
    have found : ((firstNamed [0x62, 0x2e, 0x74, 0x78, 0x74] (listing smallContents 4100 2048)).map fun logical =>
        (logical.dirent.info.attr, logical.dirent.info.size)) = some (0x20, 7) := by
      rw [listing, logicalEnts_upTo (show 1 < _ by decide) (by decide +kernel)]
      decide +kernel
    obtain ⟨logical, first, values⟩ := Option.map_eq_some_iff.mp found
    have values := Prod.mk.inj values
    have met : OrdersMet smallContents 2048 ((4100 * 512 - 2048) / 32) [0x62, 0x2e, 0x74, 0x78, 0x74] :=
      OrdersMet.of_end (show EndsDirectory (entAt smallContents (2048 + 32 * 1)) by decide +kernel) (by decide +kernel)
    exact ⟨logical, ⟨by decide, by decide, met, first⟩, values⟩
  obtain ⟨dir, finds, attr, cluster⟩ := directory
  obtain ⟨logical, finds', values⟩ := file
  have root : fatGetRoot smallDriver = 1024 := by decide
  have inside : clusterToPos smallDriver dir.dirent.info.cluster = 2048 := by
    rw [cluster]
    decide
  rw [root]
  exact ⟨logical.dirent.info, .inside finds (by rw [attr]; decide) (inside ▸ .file finds'), values⟩

theorem fat_open_files_small : ∃ ret after,
    fatVfsOpen .zeroed 2099201 (direntInfo [] []) { driver := smallDriver, world := () }
      [0x64, 0x2f, 0x62, 0x2e, 0x74, 0x78, 0x74] 1 = .ok (ret, after) ∧ ret ≠ 0 := by
  obtain ⟨deInfo, resolves, attr, _⟩ := small_resolves
  obtain ⟨ret, after, opened, full⟩ := (fat_open_files .zeroed smallDisk _ smallDriver_reachable).2.2 smallContents
    [0x64, 0x2f, 0x62, 0x2e, 0x74, 0x78, 0x74] deInfo 1 smallDisk_volume
    smallDriver_allocated resolves (by decide) (by decide)
    (by rw [attr]; decide) (fun wrong => absurd (by decide) wrong) 2099201 (by decide) (direntInfo [] []) ()
  exact ⟨ret, after, opened, fun failed => fresh_closed ⟨0, fatMaxFileDescs_pos⟩ (full failed _)⟩

end Bwuhos
