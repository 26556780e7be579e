import Bwuhos.Fat.Names
import Bwuhos.Fat.Parent

namespace Bwuhos

open Bwuhos.Data

/-! # Slashes

What `fat_vfs_open` makes of a path without components, and of slashes between them.
-/

/-- An open that returns `VFS_FILE_ID_NULL` and changes no descriptor. -/
def OpensNothing {World : Type} (platform : Platform World) (fuel : Nat) (uninit : FatDirentInfo) (s : FatState World)
    (path : List UInt8) (flags : Nat) : Prop :=
  ∃ after, fatVfsOpen platform fuel uninit s path flags = .ok (0, after) ∧
    after.driver.fileDescs = s.driver.fileDescs

/-- A path with one slash more: in front of it, or behind a slash that a component follows. -/
inductive ExtraSlash : List UInt8 → List UInt8 → Prop
  | front (path : List UInt8) : ExtraSlash path (0x2f :: path)
  | doubled (front back : List UInt8) (later : pathComponents [] back ≠ []) :
      ExtraSlash (front ++ 0x2f :: back) (front ++ 0x2f :: 0x2f :: back)

/-- A directory of 8.3 entries that lies inside the device. -/
structure ShortSearchable (contents : Nat → List UInt8) (nblk pos : Nat) : Prop extends Searchable nblk pos where
  short : ShortDirectory contents pos ((nblk * 512 - pos) / 32)

section Only

variable {World : Type} {platform : Platform World} {fuel flags : Nat} {s : FatState World} {path : List UInt8}
  {walk : PathWalk} {deInfo : FatDirentInfo}

theorem walkPath_slashes (slashes : ∀ ch ∈ path, ch = 0x2f) (start : walk.pathBuf = []) :
    walkPath platform fuel path walk s = .ok (some walk, s) := by
  induction path with
  | nil => rfl
  | cons ch path ih =>
      obtain ⟨slash, rest⟩ := List.forall_mem_cons.mp slashes
      rw [walkPath_skip (not_not.mpr slash) start]
      exact ih rest

/-- Without a component, the entry to open is what the local holds. -/
theorem fatVfsOpen_slashes (slashes : ∀ ch ∈ path, ch = 0x2f) :
    fatVfsOpen platform fuel deInfo s path flags = .ok (openDirent s deInfo flags) := by
  rw [fatVfsOpen_eq, walkPath_slashes slashes rfl]
  rfl

/-- The path of a file system root opens nothing exactly where the uninitialised `de_info`
is not one that the flags permit to open, or no descriptor is free. -/
theorem fat_open_slashes_iff (platform : Platform World) (fuel : Nat) (uninit : FatDirentInfo) (s : FatState World)
    (path : List UInt8) (flags : Nat) (slashes : ∀ ch ∈ path, ch = 0x2f) :
    OpensNothing platform fuel uninit s path flags ↔
      ¬Openable flags uninit ∨ ∀ slot : Fin fatMaxFileDescs, (s.driver.fileDescs.get slot).IsOpen := by
  rw [OpensNothing, fatVfsOpen_slashes slashes, ← findSlot_none_iff]
  constructor
  · intro nothing
    obtain ⟨after, opened, _⟩ := nothing
    by_contra taken
    obtain ⟨openable, free⟩ := not_or.mp taken
    obtain ⟨slot, found⟩ := Option.ne_none_iff_exists'.mp free
    obtain ⟨fd, taken, _⟩ := openDirent_slot (not_not.mp openable) found
    rw [taken] at opened
    cases opened
  · intro either
    refine ⟨s, congrArg Except.ok ?_, rfl⟩
    cases either with
    | inl unopenable => exact openDirent_unopenable s unopenable
    | inr full => exact openDirent_noSlot flags uninit full

end Only

theorem fat_open_slashes_iff_directory : OpensNothing .zeroed 0 { direntInfo [] [] with attr := 0x10 }
    { driver := smallDriver, world := () } [0x2f] 1 :=
  (fat_open_slashes_iff .zeroed 0 _ _ [0x2f] 1 (by simp)).mpr (Or.inl (by decide))

theorem fat_open_slash_taken : (fatSystem .zeroed smallDisk).Reachable { driver := smallDriver, issued := [] } ∧
    (∃ after, fatVfsOpen .zeroed 0 (direntInfo [] []) { driver := smallDriver, world := () } [0x2f] 1 = .ok (1, after) ∧
      (after.driver.fileDescs.get ⟨0, fatMaxFileDescs_pos⟩).IsOpen) ∧
    ¬OpensNothing .zeroed 0 (direntInfo [] []) { driver := smallDriver, world := () } [0x2f] 1 := by
  have opened : fatVfsOpen .zeroed 0 (direntInfo [] []) { driver := smallDriver, world := () } [0x2f] 1 =
      .ok (openDirent { driver := smallDriver, world := () } (direntInfo [] []) 1) :=
    fatVfsOpen_slashes (by simp)
  have free : findSlot smallDriver = some ⟨0, fatMaxFileDescs_pos⟩ := by decide +kernel
  obtain ⟨fd, taken, isOpen, _⟩ := @openDirent_slot Unit { driver := smallDriver, world := () } 1 (direntInfo [] []) _
    (by decide) free
  rw [taken] at opened
  refine ⟨smallDriver_reachable, ⟨_, opened, ?_⟩, fun nothing => ?_⟩
  · rw [setDesc_same]
    exact isOpen
  · obtain ⟨after, returned, _⟩ := nothing
    cases opened.symm.trans returned

section Between

variable {World : Type} {platform : Platform World} {fuel flags : Nat} {s : FatState World} {path : List UInt8}
  {walk : PathWalk}

/-- A path with a component stores an entry in `de_info` before anything looks at it. -/
theorem walkPath_uninit (other : FatDirentInfo) (named : pathComponents walk.pathBuf path ≠ []) :
    walkPath platform fuel path walk s >>= finishOpen platform fuel flags =
      walkPath platform fuel path { walk with deInfo := other } s >>= finishOpen platform fuel flags := by
  induction path generalizing walk with
  | nil =>
      have nonempty : walk.pathBuf ≠ [] := fun empty => named (if_pos empty)
      simp only [walkPath, bind, Except.bind, finishOpen, if_neg nonempty]
  | cons ch path ih =>
      by_cases room : walk.pathBuf.length ≥ 256
      · rw [walkPath, walkPath, if_pos room, if_pos room]
      · by_cases letter : ch ≠ 0x2f
        · rw [pathComponents_letter letter] at named
          rw [walkPath_letter room letter,
            @walkPath_letter World platform fuel s { walk with deInfo := other } path ch room letter]
          exact ih named
        · by_cases empty : walk.pathBuf = []
          · rw [pathComponents_skip letter empty] at named
            rw [walkPath_skip letter empty,
              @walkPath_skip World platform fuel s { walk with deInfo := other } path ch letter empty]
            exact ih named
          · rw [walkPath, walkPath, if_neg room, if_neg room, if_neg letter, if_neg letter, if_neg empty, if_neg empty]

/-- The second of two slashes is passed over, as long as the path goes on behind it: the
look ahead at the next character comes out the same. -/
theorem walkPath_doubled (front : List UInt8) {back : List UInt8} (more : back ≠ []) :
    walkPath platform fuel (front ++ 0x2f :: 0x2f :: back) walk s =
      walkPath platform fuel (front ++ 0x2f :: back) walk s := by
  induction front generalizing walk s with
  | nil =>
      by_cases empty : walk.pathBuf = []
      · simp [walkPath, empty]
      · simp [walkPath, empty, more]
  | cons ch front ih =>
      simp only [List.cons_append, walkPath, ih]
      simp

theorem ExtraSlash.same {longer : List UInt8} (extra : ExtraSlash path longer) (uninit : FatDirentInfo) :
    fatVfsOpen platform fuel uninit s longer flags = fatVfsOpen platform fuel uninit s path flags := by
  rw [fatVfsOpen_eq, fatVfsOpen_eq]
  cases extra with
  | front => simp [walkPath]
  | doubled front back later =>
      have more : back ≠ [] := fun ended => later (by rw [ended]; rfl)
      rw [walkPath_doubled front more]

end Between

section Returns

variable {World : Type} {platform : Platform World} {dev : Blkdev World} {contents : Nat → List UInt8}
  {s last : FatState World} {fuel flags de pos : Nat} {path component : List UInt8} {names : List (List UInt8)}

theorem Reaches.member (reaches : Reaches platform fuel s de names last pos component) : component ∈ names := by
  induction reaches with
  | first => exact List.mem_cons_self
  | later _ _ _ ih => exact List.mem_cons_of_mem _ ih

theorem Reaches.onlyReads (reaches : Reaches platform fuel s de names last pos component) :
    OnlyReads platform s last := by
  induction reaches with
  | first => exact .refl _
  | later entered _ _ ih => exact (enterDirent_onlyReads entered).trans ih

theorem Reaches.aligned (reaches : Reaches platform fuel s de names last pos component)
    (sectorSize : s.driver.sectorSize = 512) (aligned : de % 32 = 0) : pos % 32 = 0 := by
  induction reaches with
  | first => exact aligned
  | later entered _ _ ih =>
      have only := enterDirent_onlyReads entered
      have sectors : (_ : FatState World).driver.sectorSize = 512 :=
        (congrArg FatDriver.sectorSize only.driver).trans sectorSize
      exact ih sectors (clusterToPos_aligned sectors _)

/-- An open of a path with short components returns where all directories on its way lie
inside the device and have 8.3 entries. -/
theorem fatVfsOpen_returns (uninit : FatDirentInfo) (flags : Nat) (volume : Volume dev contents)
    (coherent : Coherent s.driver.blkCache dev contents) (sectorSize : s.driver.sectorSize = 512)
    (lengths : ∀ name ∈ pathComponents [] path, name.length < 256) (enough : dev.nblk * 512 < fuel)
    (directories : ∀ last pos component,
      Reaches platform fuel s (fatGetRoot s.driver) (pathComponents [] path) last pos component →
        ShortSearchable contents dev.nblk pos) :
    ∃ opened, fatVfsOpen platform fuel uninit s path flags = .ok opened := by
  cases opens : fatVfsOpen platform fuel uninit s path flags with
  | ok opened => exact ⟨opened, rfl⟩
  | error stop =>
      have inside := (pathWrites_inside_iff platform fuel path
        { de := fatGetRoot s.driver, deInfo := uninit, pathBuf := [] } s).mpr fun _ _ component reaches =>
          Nat.le_of_lt_succ (lengths component reaches.member)
      rw [fatVfsOpen_eq] at opens
      obtain ⟨last, pos, component, reaches, stops⟩ := walkPath_stops inside opens
      have directory := directories last pos component reaches
      obtain ⟨_, entered, _⟩ := enterDirent_lookup platform volume
        (coherent.reads volume.delivers volume.nblk_lt reaches.onlyReads.cache) directory.toSearchable
        (reaches.aligned sectorSize (fatGetRoot_aligned sectorSize)) directory.short.met enough
      cases stops.symm.trans entered

/-- In every state of the driver, a slash more in a path that has a component changes
nothing of what an open does, whatever its locals hold.  On a volume, the open returns if
its components are short and the directories on its way have 8.3 entries. -/
theorem fat_open_extra_slash (platform : Platform World) (path longer : List UInt8) (extra : ExtraSlash path longer)
    (named : pathComponents [] path ≠ []) (flags : Nat) :
    (∀ fuel uninit other s,
        fatVfsOpen platform fuel uninit s longer flags = fatVfsOpen platform fuel other s path flags) ∧
      ∀ dev session contents, (fatSystem platform dev).Reachable session → Volume dev contents →
        session.driver.blkCache.buf ≠ none → (∀ name ∈ pathComponents [] path, name.length < 256) →
        ∀ fuel > dev.nblk * 512, ∀ uninit world,
          (∀ last pos component, Reaches platform fuel { driver := session.driver, world } (fatGetRoot session.driver)
            (pathComponents [] path) last pos component → ShortSearchable contents dev.nblk pos) →
          ∃ opened, fatVfsOpen platform fuel uninit { driver := session.driver, world } path flags = .ok opened := by
  constructor
  · intro fuel uninit other s
    rw [extra.same uninit, fatVfsOpen_eq, fatVfsOpen_eq]
    exact walkPath_uninit other named
  · intro dev session contents reached volume allocated lengths fuel enough uninit world directories
    have ok := fat_reachable_ok reached
    exact @fatVfsOpen_returns World platform dev contents { driver := session.driver, world } fuel path uninit flags
      volume (ok.coherent volume allocated) (ok.sectorSize volume) lengths enough directories

end Returns

theorem oneFileRoot_short : ShortSearchable (rootContents smallDir) 4100 1024 where
  toSearchable := ⟨by decide, by decide⟩
  short := .of_end (show EndsDirectory (entAt (rootContents smallDir) (1024 + 32 * 1)) by decide +kernel)
    (by decide +kernel)

/-- The paths `//b.txt` and `/b.txt`. -/
theorem fat_open_extra_slash_file : ∃ opened,
    fatVfsOpen .zeroed 2099201 (direntInfo [] []) { driver := rootDriver smallDir, world := () }
        [0x2f, 0x2f, 0x62, 0x2e, 0x74, 0x78, 0x74] 1 = .ok opened ∧
      fatVfsOpen .zeroed 2099201 (direntInfo [] []) { driver := rootDriver smallDir, world := () }
        [0x2f, 0x62, 0x2e, 0x74, 0x78, 0x74] 1 = .ok opened := by
  have doubled : ExtraSlash [0x2f, 0x62, 0x2e, 0x74, 0x78, 0x74] [0x2f, 0x2f, 0x62, 0x2e, 0x74, 0x78, 0x74] :=
    .doubled [] [0x62, 0x2e, 0x74, 0x78, 0x74] (by decide)
  have root : fatGetRoot (rootDriver smallDir) = 1024 := by decide
  obtain ⟨same, returns⟩ := fat_open_extra_slash .zeroed _ _ doubled (by decide) 1
  obtain ⟨opened, straight⟩ := returns (rootDisk smallDir) { driver := rootDriver smallDir, issued := [] }
    (rootContents smallDir) (rootDriver_reachable smallDir) (rootDisk_volume (by decide))
    (rootDriver_allocated smallDir) (by decide) 2099201 (by decide) (direntInfo [] []) ()
    fun last pos component reaches => by
      cases reaches with
      | first => exact root ▸ oneFileRoot_short
      | later _ _ rest => exact absurd rest not_reaches_nil
  exact ⟨opened, (same _ _ _ _).trans straight, straight⟩

end Bwuhos
