import Bwuhos.Fat.File
import Bwuhos.Fat.Frame
import Bwuhos.Fat.Search

namespace Bwuhos

open Bwuhos.Data

/-! # Path resolution

What a path stands for on a volume, and that `fat_vfs_open` gets there.
-/

/-- The components of a path, the first of which begins with `buf`. -/
def pathComponents (buf : List UInt8) : List UInt8 → List (List UInt8)
  | [] => if buf = [] then [] else [buf]
  | ch :: path =>
      if ch ≠ 0x2f then pathComponents (buf ++ [ch]) path
      else if buf = [] then pathComponents [] path
      else buf :: pathComponents [] path

/-- The directory at a position has an entry of that name, and what a search reads up to
that entry fits into its buffers.  No directory lies in the boot sector. -/
structure Finds (contents : Nat → List UInt8) (nblk pos : Nat) (name : List UInt8) (logical : LogicalEnt) : Prop where
  positive : 0 < pos
  inside : pos < nblk * 512
  met : OrdersMet contents pos ((nblk * 512 - pos) / 32) name
  first : firstNamed name (listing contents nblk pos) = some logical

/-- The components lead from the directory at a position to an entry.  `posOf` says where
the directory with a given first cluster lies. -/
inductive Resolves (contents : Nat → List UInt8) (nblk : Nat) (posOf : Nat → Nat) :
    Nat → List (List UInt8) → FatDirentInfo → Prop
  | file {pos : Nat} {name : List UInt8} {logical : LogicalEnt} (finds : Finds contents nblk pos name logical) :
      Resolves contents nblk posOf pos [name] logical.dirent.info
  | inside {pos : Nat} {name : List UInt8} {logical : LogicalEnt} {names : List (List UInt8)} {deInfo : FatDirentInfo}
      (finds : Finds contents nblk pos name logical) (directory : logical.dirent.info.attr &&& fdaDir ≠ 0)
      (rest : Resolves contents nblk posOf (posOf logical.dirent.info.cluster) names deInfo) :
      Resolves contents nblk posOf pos (name :: names) deInfo

section Components

variable {buf path : List UInt8} {ch : UInt8}

theorem pathComponents_letter (letter : ch ≠ 0x2f) :
    pathComponents buf (ch :: path) = pathComponents (buf ++ [ch]) path :=
  if_pos letter

theorem pathComponents_skip (slash : ¬ch ≠ 0x2f) (empty : buf = []) :
    pathComponents buf (ch :: path) = pathComponents buf path := by
  rw [pathComponents, if_neg slash, if_pos empty, empty]

theorem pathComponents_name (slash : ¬ch ≠ 0x2f) (nonempty : ¬buf = []) :
    pathComponents buf (ch :: path) = buf :: pathComponents [] path := by
  rw [pathComponents, if_neg slash, if_neg nonempty]

theorem pathComponents_length (path : List UInt8) (nonempty : buf ≠ []) :
    ∃ name names, pathComponents buf path = name :: names ∧ buf.length ≤ name.length := by
  induction path generalizing buf with
  | nil => exact ⟨buf, [], if_neg nonempty, Nat.le_refl _⟩
  | cons ch path ih =>
      rw [pathComponents]
      split
      · obtain ⟨name, names, same, bound⟩ := ih (show buf ++ [ch] ≠ [] by simp)
        rw [List.length_append] at bound
        exact ⟨name, names, same, Nat.le_of_add_right_le bound⟩
      · exact ⟨buf, _, rfl, Nat.le_refl _⟩

theorem pathComponents_empty (none : pathComponents [] path = []) : path = List.replicate path.length 0x2f := by
  induction path with
  | nil => rfl
  | cons ch path ih =>
      by_cases letter : ch ≠ 0x2f
      · obtain ⟨name, names, same, _⟩ := pathComponents_length path (show [] ++ [ch] ≠ [] by simp)
        rw [pathComponents_letter letter, same] at none
        cases none
      · rw [pathComponents_skip letter rfl] at none
        rw [List.length_cons, List.replicate_succ, ← ih none, not_not.mp letter]

theorem pathComponents_last (plain : ¬[0x2f, 0x2f] <:+ 0x2f :: path) (none : pathComponents [] path = []) :
    path = [] := by
  cases path with
  | nil => rfl
  | cons ch path =>
      have slashes := pathComponents_empty none
      refine absurd ⟨List.replicate path.length 0x2f, ?_⟩ plain
      rw [slashes, List.length_cons, ← List.replicate_succ,
        show ([0x2f, 0x2f] : List UInt8) = List.replicate 2 0x2f from rfl,
        List.replicate_append_replicate]

end Components

section Characters

variable {World : Type} {platform : Platform World} {fuel : Nat} {s after : FatState World} {walk : PathWalk}
  {path : List UInt8} {ch : UInt8}

theorem walkPath_letter (room : ¬walk.pathBuf.length ≥ 256) (letter : ch ≠ 0x2f) :
    walkPath platform fuel (ch :: path) walk s =
      walkPath platform fuel path { walk with pathBuf := walk.pathBuf ++ [ch] } s := by
  rw [walkPath, if_neg room, if_pos letter]

theorem walkPath_skip (slash : ¬ch ≠ 0x2f) (empty : walk.pathBuf = []) :
    walkPath platform fuel (ch :: path) walk s = walkPath platform fuel path walk s := by
  have room : ¬walk.pathBuf.length ≥ 256 := by simp [empty]
  rw [walkPath, if_neg room, if_neg slash, if_pos empty]

theorem walkPath_stopped {stop : Stop} (room : ¬walk.pathBuf.length ≥ 256) (slash : ¬ch ≠ 0x2f)
    (nonempty : ¬walk.pathBuf = []) (entering : enterDirent platform fuel s walk.de walk.pathBuf = .error stop) :
    walkPath platform fuel (ch :: path) walk s = .error stop := by
  rw [walkPath, if_neg room, if_neg slash, if_neg nonempty, entering]
  rfl

theorem walkPath_absent (room : ¬walk.pathBuf.length ≥ 256) (slash : ¬ch ≠ 0x2f)
    (nonempty : ¬walk.pathBuf = []) (entering : enterDirent platform fuel s walk.de walk.pathBuf = .ok (none, after)) :
    walkPath platform fuel (ch :: path) walk s = .ok (none, after) := by
  rw [walkPath, if_neg room, if_neg slash, if_neg nonempty, entering]
  rfl

/-- The walk goes on in a component, unless it is a file and the path goes on. -/
theorem walkPath_entered {deInfo : FatDirentInfo} (room : ¬walk.pathBuf.length ≥ 256) (slash : ¬ch ≠ 0x2f)
    (nonempty : ¬walk.pathBuf = [])
    (entering : enterDirent platform fuel s walk.de walk.pathBuf = .ok (some deInfo, after)) :
    walkPath platform fuel (ch :: path) walk s =
      if deInfo.attr &&& fdaDir = 0 ∧ path ≠ [] then .ok (none, after)
      else walkPath platform fuel path { de := clusterToPos after.driver deInfo.cluster, deInfo, pathBuf := [] }
        after := by
  rw [walkPath, if_neg room, if_neg slash, if_neg nonempty, entering]
  rfl

/-- Where the walk returns, it took one of these steps for the character. -/
theorem walkPath_cases {walked : Option PathWalk}
    (returned : walkPath platform fuel (ch :: path) walk s = .ok (walked, after)) :
    (ch ≠ 0x2f ∧
      walkPath platform fuel path { walk with pathBuf := walk.pathBuf ++ [ch] } s = .ok (walked, after)) ∨
    (¬ch ≠ 0x2f ∧ walk.pathBuf = [] ∧ walkPath platform fuel path walk s = .ok (walked, after)) ∨
    (¬ch ≠ 0x2f ∧ ∃ entered, enterDirent platform fuel s walk.de walk.pathBuf = .ok (entered, after) ∧ walked = none) ∨
    (¬ch ≠ 0x2f ∧ ∃ deInfo middle, enterDirent platform fuel s walk.de walk.pathBuf = .ok (some deInfo, middle) ∧
      walkPath platform fuel path { de := clusterToPos middle.driver deInfo.cluster, deInfo, pathBuf := [] } middle =
        .ok (walked, after)) := by
  by_cases room : walk.pathBuf.length ≥ 256
  · rw [walkPath, if_pos room] at returned
    cases returned
  · by_cases letter : ch ≠ 0x2f
    · rw [walkPath_letter room letter] at returned
      exact Or.inl ⟨letter, returned⟩
    · by_cases empty : walk.pathBuf = []
      · rw [walkPath_skip letter empty] at returned
        exact Or.inr (Or.inl ⟨letter, empty, returned⟩)
      · refine Or.inr (Or.inr ?_)
        cases entering : enterDirent platform fuel s walk.de walk.pathBuf with
        | error stop =>
            rw [walkPath_stopped room letter empty entering] at returned
            cases returned
        | ok result =>
            obtain ⟨entered, middle⟩ := result
            cases entered with
            | none =>
                rw [walkPath_absent room letter empty entering] at returned
                cases returned
                exact Or.inl ⟨letter, none, rfl, rfl⟩
            | some deInfo =>
                rw [walkPath_entered room letter empty entering] at returned
                split at returned
                · cases returned
                  exact Or.inl ⟨letter, some deInfo, rfl, rfl⟩
                · exact Or.inr ⟨letter, deInfo, middle, rfl, returned⟩

end Characters

section Frame

variable {World : Type} {platform : Platform World} {fuel : Nat} {before after : FatState World}

theorem enterDirent_onlyReads {de : Nat} {pathBuf : List UInt8} {entered : Option FatDirentInfo}
    (returned : enterDirent platform fuel before de pathBuf = .ok (entered, after)) :
    OnlyReads platform before after := by
  obtain ⟨found, find, rest⟩ := bind_eq_ok returned
  have first := fatFindDirent_onlyReads find
  split at rest
  · cases rest
    exact first
  · obtain ⟨⟨deInfo, last⟩, got, finished⟩ := bind_eq_ok rest
    cases finished
    exact first.trans (fatGetDirentInfo_onlyReads got)

theorem walkPath_onlyReads {path : List UInt8} {walk : PathWalk} {walked : Option PathWalk}
    (returned : walkPath platform fuel path walk before = .ok (walked, after)) : OnlyReads platform before after := by
  induction path generalizing walk before with
  | nil =>
      cases returned
      exact .refl _
  | cons ch path ih =>
      rcases walkPath_cases returned with ⟨_, rest⟩ | ⟨_, _, rest⟩ | ⟨_, _, enter, _⟩ | ⟨_, _, _, enter, rest⟩
      · exact ih rest
      · exact ih rest
      · exact enterDirent_onlyReads enter
      · exact (enterDirent_onlyReads enter).trans (ih rest)

theorem OnlyReads.clusterToPos (only : OnlyReads platform before after) :
    clusterToPos after.driver = clusterToPos before.driver := by
  rw [only.driver]
  rfl

end Frame

section Volume

variable {World : Type} {platform : Platform World} {dev : Blkdev World} {contents : Nat → List UInt8}
  {s : FatState World} {pos count fuel : Nat} {name : List UInt8} {logical : LogicalEnt} {ents : List LogicalEnt}

theorem firstNamed_start (met : OrdersMet contents pos count name)
    (listed : logicalEnts pos emptyName pos (entsFrom contents pos count) = ents)
    (first : firstNamed name ents = some logical) :
    ∃ index later, logical.start = pos + 32 * index ∧ count = index + later ∧
      OrdersMet contents logical.start later name ∧
      (logicalEnts logical.start emptyName logical.start (entsFrom contents logical.start later)).head? =
        some logical := by
  induction ents generalizing pos count with
  | nil => cases first
  | cons head rest ih =>
      obtain ⟨same, index, later, total, position, standard, remaining⟩ := logicalEnts_split listed
      by_cases named : Named name head
      · rw [firstNamed_here named] at first
        cases first
        exact ⟨0, count, same, (Nat.zero_add _).symm, same ▸ met, by rw [same, listed]; rfl⟩
      · rw [firstNamed_later named] at first
        obtain ⟨further, last, start, left, met', head'⟩ :=
          ih (met.tail listed named total position standard remaining) remaining.symm first
        exact ⟨index + 1 + further, last, by omega, by omega, met', head'⟩

theorem enterDirent_spec (platform : Platform World) (volume : Volume dev contents)
    (coherent : Coherent s.driver.blkCache dev contents)
    (aligned : pos % 32 = 0) (finds : Finds contents dev.nblk pos name logical) (enough : dev.nblk * 512 < fuel) :
    ∃ after, enterDirent platform fuel s pos name = .ok (some logical.dirent.info, after) ∧
      Warm after dev contents := by
  have inside := finds.inside
  have positive := finds.positive
  obtain ⟨middle, found, warm⟩ := fatFindDirent_spec platform volume aligned inside coherent finds.met
    (by omega : _ < fuel)
  obtain ⟨index, later, start, total, met, head⟩ := firstNamed_start finds.met rfl finds.first
  obtain ⟨after, got, warm'⟩ := fatGetDirentInfo_spec platform volume (by omega) (by omega) warm.coherent
    (fun _ => warm) met.fit (by omega : _ < fuel)
  refine ⟨after, ?_, warm'⟩
  rw [finds.first, Option.map_some, Option.getD_some] at found
  have somewhere : ¬logical.start = 0 := by omega
  unfold enterDirent
  rw [found]
  simp only [bind, Except.bind]
  rw [if_neg somewhere, got, head]
  rfl

theorem clusterToPos_aligned {driver : FatDriver World} (sectorSize : driver.sectorSize = 512) (cluster : Nat) :
    clusterToPos driver cluster % 32 = 0 := by
  unfold clusterToPos
  rw [sectorSize]
  simp only [u64]
  omega

theorem fatGetRoot_aligned {driver : FatDriver World} (sectorSize : driver.sectorSize = 512) :
    fatGetRoot driver % 32 = 0 := by
  unfold fatGetRoot
  rw [sectorSize]
  simp only [u64]
  omega

theorem walkPath_spec {path : List UInt8} {deInfo : FatDirentInfo} (platform : Platform World) (walk : PathWalk)
    (volume : Volume dev contents)
    (coherent : Coherent s.driver.blkCache dev contents) (sectorSize : s.driver.sectorSize = 512)
    (aligned : walk.de % 32 = 0) (enough : dev.nblk * 512 < fuel)
    (resolves : Resolves contents dev.nblk (clusterToPos s.driver) walk.de (pathComponents walk.pathBuf path) deInfo)
    (short : ∀ name ∈ pathComponents walk.pathBuf path, name.length < 256) (plain : ¬[0x2f, 0x2f] <:+ path) :
    ∃ last after, walkPath platform fuel path walk s = .ok (some last, after) ∧
      Coherent after.driver.blkCache dev contents ∧
      (last.pathBuf = [] ∧ last.deInfo = deInfo ∨ last.pathBuf ≠ [] ∧ last.pathBuf.length < 256 ∧ last.de % 32 = 0 ∧
        Resolves contents dev.nblk (clusterToPos s.driver) last.de [last.pathBuf] deInfo) := by
  induction path generalizing walk s with
  | nil =>
      by_cases empty : walk.pathBuf = []
      · rw [pathComponents, if_pos empty] at resolves
        cases resolves
      · rw [pathComponents, if_neg empty] at resolves short
        exact ⟨walk, s, rfl, coherent, Or.inr ⟨empty, short _ (List.mem_singleton_self _), aligned, resolves⟩⟩
  | cons ch path ih =>
      have plain' : ¬[0x2f, 0x2f] <:+ path := fun ends => plain (ends.trans (List.suffix_cons _ _))
      have fits : ¬walk.pathBuf.length ≥ 256 := by
        by_cases empty : walk.pathBuf = []
        · rw [empty]
          decide
        · obtain ⟨name, names, same, bound⟩ := pathComponents_length (ch :: path) empty
          have := short name (same ▸ List.mem_cons_self ..)
          omega
      by_cases letter : ch ≠ 0x2f
      · rw [pathComponents_letter letter] at resolves short
        rw [walkPath_letter fits letter]
        exact ih _ coherent sectorSize aligned resolves short plain'
      · by_cases empty : walk.pathBuf = []
        · rw [pathComponents_skip letter empty] at resolves short
          rw [walkPath_skip letter empty]
          exact ih _ coherent sectorSize aligned resolves short plain'
        · rw [pathComponents_name letter empty] at resolves short
          generalize remaining : pathComponents [] path = names at resolves short
          cases resolves with
          | @file _ _ found finds =>
              obtain ⟨after, entered, warm⟩ := enterDirent_spec platform volume coherent aligned finds enough
              have ended : path = [] := pathComponents_last (not_not.mp letter ▸ plain) remaining
              subst ended
              refine ⟨{ de := clusterToPos after.driver found.dirent.info.cluster
                        deInfo := found.dirent.info
                        pathBuf := [] },
                after, ?_, warm.coherent, Or.inl ⟨rfl, rfl⟩⟩
              rw [walkPath_entered fits letter empty entered, if_neg (fun wrong => wrong.2 rfl)]
              rfl
          | inside finds directory rest =>
              obtain ⟨after, entered, warm⟩ := enterDirent_spec platform volume coherent aligned finds enough
              have only := enterDirent_onlyReads entered
              have same := only.clusterToPos
              have sectors : after.driver.sectorSize = 512 := by rw [only.driver]; exact sectorSize
              rw [walkPath_entered fits letter empty entered, if_neg (fun wrong => directory wrong.1)]
              rw [← same, ← remaining] at rest
              rw [← same]
              exact ih _ warm.coherent sectors (clusterToPos_aligned sectors _) rest
                (fun name member => short name (List.mem_cons_of_mem _ (remaining ▸ member))) plain'

theorem fatVfsOpen_spec {path : List UInt8} {deInfo : FatDirentInfo} (platform : Platform World)
    (uninit : FatDirentInfo)
    (flags : Nat) (volume : Volume dev contents)
    (coherent : Coherent s.driver.blkCache dev contents) (sectorSize : s.driver.sectorSize = 512)
    (enough : dev.nblk * 512 < fuel)
    (resolves : Resolves contents dev.nblk (clusterToPos s.driver) (fatGetRoot s.driver)
    (pathComponents [] path) deInfo)
    (short : ∀ name ∈ pathComponents [] path, name.length < 256) (plain : ¬[0x2f, 0x2f] <:+ path) :
    ∃ after, fatVfsOpen platform fuel uninit s path flags = .ok (openDirent after deInfo flags) ∧
      OnlyReads platform s after := by
  have aligned := fatGetRoot_aligned sectorSize
  obtain ⟨last, middle, walked, coherent', outcome⟩ := walkPath_spec platform
    { de := fatGetRoot s.driver, deInfo := uninit, pathBuf := [] } volume coherent sectorSize aligned enough
    resolves short plain
  have only := walkPath_onlyReads walked
  unfold fatVfsOpen
  rw [walked]
  simp only [bind, Except.bind]
  rcases outcome with ⟨empty, same⟩ | ⟨nonempty, short', aligned', resolves'⟩
  · rw [if_pos empty, same]
    exact ⟨middle, rfl, only⟩
  · rw [if_neg nonempty, if_neg (Nat.not_le_of_lt short')]
    have single : ∃ logical, Finds contents dev.nblk last.de last.pathBuf logical ∧ logical.dirent.info = deInfo := by
      cases resolves' with
      | file finds => exact ⟨_, finds, rfl⟩
      | inside _ _ rest => cases rest
    obtain ⟨logical, finds, rfl⟩ := single
    obtain ⟨after, entered, _⟩ := enterDirent_spec platform volume coherent' aligned' finds enough
    rw [entered]
    exact ⟨after, rfl, only.trans (enterDirent_onlyReads entered)⟩

end Volume

end Bwuhos
