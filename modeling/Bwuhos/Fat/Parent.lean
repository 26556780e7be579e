import Bwuhos.Fat.LongNames
import Bwuhos.Fat.Paths
import Bwuhos.Fat.Runs

namespace Bwuhos

open Bwuhos.Data

/-! # Paths through the parent directory

The comparison of names takes the entry `.` for `..`, so a path never climbs.
-/

/-- What a search of a directory for a name comes to. -/
def lookupAt (contents : Nat → List UInt8) (nblk pos : Nat) (name : List UInt8) : Option FatDirentInfo :=
  (firstNamed name (listing contents nblk pos)).map fun logical => logical.dirent.info

def directoryNamed (contents : Nat → List UInt8) (nblk pos : Nat) (name : List UInt8) : Option FatDirentInfo :=
  (lookupAt contents nblk pos name).filter fun deInfo => deInfo.attr &&& fdaDir ≠ 0

/-- What `fat_vfs_open` asks of the entry that it has found. -/
def Openable (flags : Nat) (deInfo : FatDirentInfo) : Prop :=
  deInfo.attr &&& fdaDir = 0 ∧ (flags &&& vffWrite ≠ 0 → deInfo.attr &&& fdaRo = 0)

instance (flags : Nat) : DecidablePred (Openable flags) := fun _ => inferInstanceAs (Decidable (_ ∧ _))

/-- The first cluster and the size of the file that can be opened under a name of a directory. -/
def fileNamed (contents : Nat → List UInt8) (nblk flags pos : Nat) (name : List UInt8) : Option (Nat × Nat) :=
  ((lookupAt contents nblk pos name).filter fun deInfo => Openable flags deInfo).map fun deInfo =>
    (deInfo.cluster, deInfo.size)

/-- The same for a name of the directory that `dir` leads to. -/
def fileInside (contents : Nat → List UInt8) (nblk : Nat) (posOf : Nat → Nat) (flags pos : Nat)
    (dir name : List UInt8) : Option (Nat × Nat) :=
  (directoryNamed contents nblk pos dir).bind fun deInfo => fileNamed contents nblk flags (posOf deInfo.cluster) name

/-- One component of a path, which fits into `path_buf`. -/
structure FileName (name : List UInt8) : Prop where
  nonempty : name ≠ []
  plain : ∀ ch ∈ name, ch ≠ 0x2f
  short : name.length < 256

/-- A directory that lies inside the device, not at its start. -/
structure Searchable (nblk pos : Nat) : Prop where
  positive : 0 < pos
  inside : pos < nblk * 512

/-- The long-name entries that a search of a directory for a name meets leave their
characters inside the name. -/
def SearchFits (contents : Nat → List UInt8) (nblk pos : Nat) (name : List UInt8) : Prop :=
  OrdersMet contents pos ((nblk * 512 - pos) / 32) name

/-- An entry for a directory, the name of which is one or two dots. -/
structure DotEnt (ent dots : List UInt8) (cluster : Nat) : Prop where
  name : ent.take 11 = dots ++ List.replicate (11 - dots.length) 0x20
  directory : direntAttr ent &&& fdaDir ≠ 0
  cluster : direntFirstCluster0 ent = cluster

/-- A directory in the root, with the two entries that it begins with. -/
structure DotDirectory (contents : Nat → List UInt8) (nblk pos cluster : Nat) : Prop extends Searchable nblk pos where
  self : DotEnt (entAt contents pos) [0x2e] cluster
  parent : DotEnt (entAt contents (pos + 32)) [0x2e, 0x2e] 0

/-- The root directory of a volume, in which `dir` leads to such a directory if it leads to
a directory at all. -/
structure RootDirectory (contents : Nat → List UInt8) (nblk : Nat) (posOf : Nat → Nat) (pos : Nat)
    (dir : List UInt8) : Prop extends Searchable nblk pos where
  dots : ∀ deInfo, directoryNamed contents nblk pos dir = some deInfo →
    DotDirectory contents nblk (posOf deInfo.cluster) deInfo.cluster

/-- The searches that an open of `name` makes, and one through `dir`. -/
structure SearchesFit (contents : Nat → List UInt8) (nblk : Nat) (posOf : Nat → Nat) (pos : Nat)
    (dir name : List UInt8) : Prop where
  straight : SearchFits contents nblk pos name
  component : SearchFits contents nblk pos dir
  inside : ∀ deInfo, directoryNamed contents nblk pos dir = some deInfo →
    SearchFits contents nblk (posOf deInfo.cluster) name

/-- The cluster and the size of the descriptor that an open has returned, if it has not failed. -/
def openedDesc {World : Type} (opened : Nat × FatState World) : Option (Nat × Nat) :=
  if opened.1 = 0 then none
  else (fdIndex opened.1).toOption.map fun slot =>
    ((opened.2.driver.fileDescs.get slot).cluster, (opened.2.driver.fileDescs.get slot).size)

/-- Two paths, opened in the same state, both fail, or both yield a descriptor with the
same cluster and size. -/
def SameOutcome {World : Type} (platform : Platform World) (fuel : Nat) (uninit : FatDirentInfo) (s : FatState World)
    (flags : Nat) (path other : List UInt8) : Prop :=
  ∃ first second, fatVfsOpen platform fuel uninit s path flags = .ok first ∧
    fatVfsOpen platform fuel uninit s other flags = .ok second ∧ openedDesc first = openedDesc second

section Lookup

variable {World : Type} {platform : Platform World} {dev : Blkdev World} {contents : Nat → List UInt8}
  {s after : FatState World} {nblk pos cluster fuel flags : Nat} {name : List UInt8} {deInfo : FatDirentInfo}

/-- The look of `fat_vfs_open` at one component, on a volume. -/
theorem enterDirent_lookup (platform : Platform World) (volume : Volume dev contents)
    (coherent : Coherent s.driver.blkCache dev contents) (searchable : Searchable dev.nblk pos)
    (aligned : pos % 32 = 0) (fits : SearchFits contents dev.nblk pos name) (enough : dev.nblk * 512 < fuel) :
    ∃ after, enterDirent platform fuel s pos name = .ok (lookupAt contents dev.nblk pos name, after) ∧
      Coherent after.driver.blkCache dev contents := by
  cases first : firstNamed name (listing contents dev.nblk pos) with
  | some logical =>
      have finds : Finds contents dev.nblk pos name logical := ⟨searchable.positive, searchable.inside, fits, first⟩
      obtain ⟨after, entered, warm⟩ := enterDirent_spec platform volume coherent aligned finds enough
      refine ⟨after, ?_, warm.coherent⟩
      rw [lookupAt, first]
      exact entered
  | none =>
      have less : (dev.nblk * 512 - pos) / 32 < fuel := by omega
      obtain ⟨after, found, warm⟩ := @fatFindDirent_spec World dev contents s pos fuel name platform volume
        aligned searchable.inside coherent fits less
      refine ⟨after, ?_, warm.coherent⟩
      rw [first] at found
      rw [lookupAt, first, enterDirent, found]
      rfl

theorem enterDirent_unfit (volume : Volume dev contents) (coherent : Coherent s.driver.blkCache dev contents)
    (searchable : Searchable dev.nblk pos) (aligned : pos % 32 = 0)
    (unfit : ¬SearchFits contents dev.nblk pos name) (enough : dev.nblk * 512 < fuel) :
    enterDirent platform fuel s pos name = .error .outOfBounds := by
  rw [enterDirent, fatFindDirent_unfit volume aligned searchable.inside coherent unfit (by omega)]
  rfl

theorem enterDirent_null (volume : Volume dev contents) (same : s.driver.blkCache.blkdev = dev)
    (null : s.driver.blkCache.buf = none) (searchable : Searchable dev.nblk pos) (aligned : pos % 32 = 0)
    (enough : dev.nblk * 512 < fuel) : enterDirent platform fuel s pos name = .error .nullDeref := by
  have inside := searchable.inside
  have read := readEnt_null platform volume same null aligned (by omega)
  obtain ⟨fuel, rfl⟩ := Nat.exists_eq_succ_of_ne_zero (Nat.ne_zero_of_lt enough)
  rw [enterDirent, fatFindDirent_stopped read]
  rfl

theorem DotEnt.notLong {ent : List UInt8} (dots : DotEnt ent name cluster) : ¬direntAttr ent = fdaLfn := by
  intro long
  have isDir := dots.directory
  rw [long] at isDir
  exact isDir rfl

theorem dosName_take (ent : List UInt8) : dosName emptyName ent = dosName emptyName (ent.take 11) := by
  simp only [dosName, List.take_take, List.drop_take, Nat.min_self]
  rfl

/-- A directory that begins with the entry `.` has it as its first logical entry, and the
comparison takes it for `..`. -/
theorem listing_dots (directory : DotDirectory contents nblk pos cluster) (aligned : pos % 32 = 0) :
    ∃ logical rest, listing contents nblk pos = logical :: rest ∧ logical.dirent.pos = pos ∧
      logical.dirent.info.attr = direntAttr (entAt contents pos) ∧ logical.dirent.info.cluster = cluster ∧
      Named [0x2e, 0x2e] logical := by
  have inside := directory.inside
  obtain ⟨count, total⟩ : ∃ count, (nblk * 512 - pos) / 32 = count + 1 :=
    Nat.exists_eq_add_one_of_ne_zero (by omega)
  have chars : (entAt contents pos).take 11 = [0x2e] ++ List.replicate 10 0x20 := directory.self.name
  have start : byteAt (entAt contents pos) 0 = 0x2e := by
    have first := congrArg (fun bytes => byteAt bytes 0) chars
    simp only [byteAt, List.getD_eq_getElem?_getD, List.getElem?_take] at first
    exact first
  have empty : byteAt emptyName 0 = 0 := rfl
  have stored : (direntInfo emptyName (entAt contents pos)).name = dosName emptyName (entAt contents pos) := by
    simp only [direntInfo, if_pos empty]
  have named : Named [0x2e, 0x2e]
      { start := pos, dirent := { pos, info := direntInfo emptyName (entAt contents pos) } } := by
    rw [Named, stored, dosName_take, chars]
    decide
  refine ⟨_, logicalEnts (pos + 32) emptyName (pos + 32) (entsFrom contents (pos + 32) count), ?_, rfl, rfl,
    directory.self.cluster, named⟩
  rw [listing, total, entsFrom, logicalEnts_cons, start, if_neg (by decide), if_neg (by decide),
    if_neg directory.self.notLong]

/-- The directory itself is the one that its entry `..` leads to. -/
theorem directoryNamed_parent (directory : DotDirectory contents nblk pos cluster) (aligned : pos % 32 = 0) :
    ∃ deInfo, directoryNamed contents nblk pos [0x2e, 0x2e] = some deInfo ∧ deInfo.cluster = cluster := by
  obtain ⟨logical, rest, listed, _, attr, found, named⟩ := listing_dots directory aligned
  refine ⟨logical.dirent.info, ?_, found⟩
  rw [directoryNamed, lookupAt, listed, firstNamed_here named, Option.map_some, Option.filter_some, if_pos]
  rw [attr]
  exact decide_eq_true directory.self.directory

theorem searchFits_parent (directory : DotDirectory contents nblk pos cluster) (aligned : pos % 32 = 0) :
    SearchFits contents nblk pos [0x2e, 0x2e] := by
  obtain ⟨logical, rest, listed, position, _, _, named⟩ := listing_dots directory aligned
  intro index _ _ others
  cases index with
  | zero => exact fun _ long => absurd long directory.self.notLong
  | succ index =>
      have member : logical ∈ listing contents nblk pos := listed ▸ List.mem_cons_self
      exact absurd named (others logical member (by omega))

end Lookup

section Walks

variable {World : Type} {platform : Platform World} {dev : Blkdev World} {contents : Nat → List UInt8}
  {s after : FatState World} {walk : PathWalk} {fuel flags pos : Nat} {name rest dir : List UInt8}

theorem walkPath_chars (plain : ∀ ch ∈ name, ch ≠ 0x2f) (short : walk.pathBuf.length + name.length ≤ 256) :
    walkPath platform fuel (name ++ rest) walk s =
      walkPath platform fuel rest { walk with pathBuf := walk.pathBuf ++ name } s := by
  induction name generalizing walk with
  | nil => rw [List.append_nil, List.nil_append]
  | cons ch name ih =>
      obtain ⟨letter, plain⟩ := List.forall_mem_cons.mp plain
      rw [List.length_cons] at short
      have grown : (walk.pathBuf ++ [ch]).length + name.length ≤ 256 := by
        rw [List.length_append, List.length_singleton]
        omega
      have later := @ih { walk with pathBuf := walk.pathBuf ++ [ch] } plain grown
      rw [List.cons_append, walkPath_letter (by omega) letter, later]
      simp only [List.append_assoc, List.singleton_append]

/-- A component that more of the path follows is entered as a directory. -/
theorem walkPath_component (fileName : FileName name) (more : rest ≠ []) (start : walk.pathBuf = []) :
    walkPath platform fuel (name ++ 0x2f :: rest) walk s =
      enterDirent platform fuel s walk.de name >>= fun entered =>
        (entered.1.filter fun deInfo => deInfo.attr &&& fdaDir ≠ 0).elim (.ok (none, entered.2)) fun deInfo =>
          walkPath platform fuel rest { de := clusterToPos entered.2.driver deInfo.cluster, deInfo, pathBuf := [] }
            entered.2 := by
  have short := fileName.short
  have length : walk.pathBuf.length = 0 := List.length_eq_zero_iff.mpr start
  have room : ¬name.length ≥ 256 := Nat.not_le_of_lt short
  rw [walkPath_chars fileName.plain (by omega), start, List.nil_append]
  cases entering : enterDirent platform fuel s walk.de name with
  | error stop => exact walkPath_stopped room (by decide) fileName.nonempty entering
  | ok entered =>
      obtain ⟨found, after⟩ := entered
      cases found with
      | none => exact walkPath_absent room (by decide) fileName.nonempty entering
      | some deInfo =>
          refine (walkPath_entered room (by decide) fileName.nonempty entering).trans ?_
          by_cases directory : deInfo.attr &&& fdaDir = 0
          · simp [directory, more, bind, Except.bind, Option.filter_some]
          · simp [directory, bind, Except.bind, Option.filter_some]

/-- The last component is looked for behind the loop. -/
theorem walkPath_last (fileName : FileName name) (start : walk.pathBuf = []) :
    walkPath platform fuel name walk s >>= finishOpen platform fuel flags =
      enterDirent platform fuel s walk.de name >>= fun entered =>
        .ok (entered.1.elim (0, entered.2) fun deInfo => openDirent entered.2 deInfo flags) := by
  have short := fileName.short
  have length : walk.pathBuf.length = 0 := List.length_eq_zero_iff.mpr start
  have walked := @walkPath_chars World platform s walk fuel name [] fileName.plain (by omega)
  rw [List.append_nil, start, List.nil_append] at walked
  rw [walked]
  simp only [walkPath, bind, Except.bind, finishOpen]
  rw [if_neg fileName.nonempty, if_neg (Nat.not_le_of_lt short)]
  cases enterDirent platform fuel s walk.de name with
  | error stop => rfl
  | ok entered =>
      obtain ⟨found, after⟩ := entered
      cases found with
      | none => rfl
      | some deInfo => rfl

theorem openedDesc_failed (s : FatState World) : openedDesc (0, s) = none := if_pos rfl

theorem openedDesc_slot {ret : Nat} {slot : Fin fatMaxFileDescs} (number : fdIndex ret = .ok slot)
    (returned : ret ≠ 0) :
    openedDesc (ret, s) = some ((s.driver.fileDescs.get slot).cluster, (s.driver.fileDescs.get slot).size) := by
  have opened : openedDesc (ret, s) = (fdIndex ret).toOption.map fun slot =>
      ((s.driver.fileDescs.get slot).cluster, (s.driver.fileDescs.get slot).size) := if_neg returned
  rw [opened, number]
  rfl

theorem openDirent_unopenable (s : FatState World) {deInfo : FatDirentInfo} (unopenable : ¬Openable flags deInfo) :
    openDirent s deInfo flags = (0, s) := by
  rw [openDirent]
  split
  · rfl
  · next file =>
      apply if_pos
      by_contra permitted
      exact unopenable ⟨not_not.mp file, by simpa using permitted⟩

theorem openDirent_noSlot (flags : Nat) (deInfo : FatDirentInfo) (full : findSlot s.driver = none) :
    openDirent s deInfo flags = (0, s) := by
  rw [openDirent, full]
  split
  · rfl
  · split <;> rfl

theorem openDirent_slot {deInfo : FatDirentInfo} {slot : Fin fatMaxFileDescs} (openable : Openable flags deInfo)
    (free : findSlot s.driver = some slot) : ∃ fd : FatFileDesc,
      openDirent s deInfo flags = ((slot : Nat) + 1, { s with driver := s.driver.setDesc slot fd }) ∧
        fd.IsOpen ∧ fd.cluster = deInfo.cluster ∧ fd.size = deInfo.size := by
  have file : ¬deInfo.attr &&& fdaDir ≠ 0 := not_not.mpr openable.1
  have permitted : ¬(flags &&& vffWrite ≠ 0 ∧ deInfo.attr &&& fdaRo ≠ 0) := fun wrong => wrong.2 (openable.2 wrong.1)
  rw [openDirent, if_neg file, if_neg permitted, free]
  refine ⟨_, rfl, ?_, rfl, rfl⟩
  simp only [FatFileDesc.IsOpen]
  split <;> split <;> decide

/-- What the descriptor of an open holds comes from the entry that was found. -/
theorem openedDesc_openDirent (s : FatState World) (flags : Nat) (deInfo : FatDirentInfo) :
    openedDesc (openDirent s deInfo flags) =
      if findSlot s.driver = none ∨ ¬Openable flags deInfo then none else some (deInfo.cluster, deInfo.size) := by
  by_cases openable : Openable flags deInfo
  · cases free : findSlot s.driver with
    | none => rw [openDirent_noSlot flags deInfo free, if_pos (Or.inl rfl), openedDesc_failed]
    | some slot =>
        have permits : ¬(some slot = none ∨ ¬Openable flags deInfo) := by simp [openable]
        obtain ⟨fd, opened, _, cluster, size⟩ := openDirent_slot openable free
        rw [if_neg permits, opened, openedDesc_slot (fdIndex_slot slot) (Nat.succ_ne_zero _), setDesc_same, cluster,
          size]
  · rw [openDirent_unopenable s openable, if_pos (Or.inr openable), openedDesc_failed]

theorem OnlyReads.findSlot (only : OnlyReads platform s after) : findSlot after.driver = findSlot s.driver := by
  simp only [Bwuhos.findSlot, only.fileDescs]

theorem walkPath_lookup (volume : Volume dev contents) (coherent : Coherent s.driver.blkCache dev contents)
    (searchable : Searchable dev.nblk walk.de) (aligned : walk.de % 32 = 0)
    (fits : SearchFits contents dev.nblk walk.de name) (fileName : FileName name) (more : rest ≠ [])
    (start : walk.pathBuf = []) (enough : dev.nblk * 512 < fuel) :
    ∃ after, OnlyReads platform s after ∧ Coherent after.driver.blkCache dev contents ∧
      walkPath platform fuel (name ++ 0x2f :: rest) walk s =
        (directoryNamed contents dev.nblk walk.de name).elim (.ok (none, after)) fun deInfo =>
          walkPath platform fuel rest { de := clusterToPos s.driver deInfo.cluster, deInfo, pathBuf := [] } after := by
  obtain ⟨after, entered, coherent'⟩ := enterDirent_lookup platform volume coherent searchable aligned fits enough
  have only := enterDirent_onlyReads entered
  refine ⟨after, only, coherent', ?_⟩
  rw [walkPath_component fileName more start, entered, ← only.clusterToPos]
  rfl

/-- The end of an open comes to the file of that name, if the search fits. -/
theorem finishOpen_lookup (volume : Volume dev contents) (coherent : Coherent s.driver.blkCache dev contents)
    (searchable : Searchable dev.nblk walk.de) (aligned : walk.de % 32 = 0)
    (fits : SearchFits contents dev.nblk walk.de name) (fileName : FileName name) (start : walk.pathBuf = [])
    (enough : dev.nblk * 512 < fuel) :
    ∃ opened, walkPath platform fuel name walk s >>= finishOpen platform fuel flags = .ok opened ∧
      openedDesc opened =
        if findSlot s.driver = none then none else fileNamed contents dev.nblk flags walk.de name := by
  obtain ⟨after, entered, _⟩ := enterDirent_lookup platform volume coherent searchable aligned fits enough
  have only := enterDirent_onlyReads entered
  rw [walkPath_last fileName start, entered]
  refine ⟨_, rfl, ?_⟩
  rw [← only.findSlot, fileNamed]
  cases lookupAt contents dev.nblk walk.de name with
  | none =>
      rw [Option.elim_none, openedDesc_failed]
      exact (ite_self none).symm
  | some deInfo =>
      rw [Option.elim_some, openedDesc_openDirent]
      by_cases openable : Openable flags deInfo
      · simp [openable, Option.filter_some]
      · simp [openable, Option.filter_some]

theorem finishOpen_unfit (volume : Volume dev contents) (coherent : Coherent s.driver.blkCache dev contents)
    (searchable : Searchable dev.nblk walk.de) (aligned : walk.de % 32 = 0)
    (unfit : ¬SearchFits contents dev.nblk walk.de name) (fileName : FileName name) (start : walk.pathBuf = [])
    (enough : dev.nblk * 512 < fuel) :
    walkPath platform fuel name walk s >>= finishOpen platform fuel flags = .error .outOfBounds := by
  rw [walkPath_last fileName start, enterDirent_unfit volume coherent searchable aligned unfit enough]
  rfl

theorem fileName_parent : FileName [0x2e, 0x2e] := ⟨by simp, by simp, by simp⟩

theorem parentPath_eq (dir name : List UInt8) :
    dir ++ [0x2f, 0x2e, 0x2e, 0x2f] ++ name = dir ++ 0x2f :: ([0x2e, 0x2e] ++ 0x2f :: name) := by
  simp only [List.append_assoc, List.cons_append, List.nil_append]

/-- A path that goes through a directory of the root and its parent goes on in that directory. -/
theorem fatVfsOpen_enters {deInfo : FatDirentInfo} (uninit : FatDirentInfo) (flags : Nat) (volume : Volume dev contents)
    (coherent : Coherent s.driver.blkCache dev contents) (sectorSize : s.driver.sectorSize = 512)
    (root : RootDirectory contents dev.nblk (clusterToPos s.driver) (fatGetRoot s.driver) dir)
    (fits : SearchFits contents dev.nblk (fatGetRoot s.driver) dir)
    (named : directoryNamed contents dev.nblk (fatGetRoot s.driver) dir = some deInfo)
    (dirName : FileName dir) (fileName : FileName name) (enough : dev.nblk * 512 < fuel) :
    ∃ behind parent, OnlyReads platform s behind ∧ Coherent behind.driver.blkCache dev contents ∧
      fatVfsOpen platform fuel uninit s (dir ++ [0x2f, 0x2e, 0x2e, 0x2f] ++ name) flags =
        walkPath platform fuel name { de := clusterToPos s.driver deInfo.cluster, deInfo := parent, pathBuf := [] }
          behind >>= finishOpen platform fuel flags := by
  obtain ⟨inside, only, coherent, entered⟩ := @walkPath_lookup World platform dev contents s
    { de := fatGetRoot s.driver, deInfo := uninit, pathBuf := [] } fuel dir ([0x2e, 0x2e] ++ 0x2f :: name) volume
    coherent root.toSearchable (fatGetRoot_aligned sectorSize) fits dirName (List.cons_ne_nil _ _) rfl enough
  have dots := root.dots deInfo named
  have aligned := clusterToPos_aligned sectorSize deInfo.cluster
  obtain ⟨parent, found, cluster⟩ := directoryNamed_parent dots aligned
  obtain ⟨behind, only', coherent, entered'⟩ := @walkPath_lookup World platform dev contents inside
    { de := clusterToPos s.driver deInfo.cluster, deInfo, pathBuf := [] } fuel [0x2e, 0x2e] name volume
    coherent dots.toSearchable aligned (searchFits_parent dots aligned) fileName_parent fileName.nonempty rfl enough
  refine ⟨behind, parent, only.trans only', coherent, ?_⟩
  rw [fatVfsOpen_eq, parentPath_eq, entered, named, Option.elim_some, entered', found, Option.elim_some, cluster,
    only.clusterToPos]

theorem fatVfsOpen_parent (uninit : FatDirentInfo) (flags : Nat) (volume : Volume dev contents)
    (coherent : Coherent s.driver.blkCache dev contents) (sectorSize : s.driver.sectorSize = 512)
    (root : RootDirectory contents dev.nblk (clusterToPos s.driver) (fatGetRoot s.driver) dir)
    (fits : SearchesFit contents dev.nblk (clusterToPos s.driver) (fatGetRoot s.driver) dir name)
    (dirName : FileName dir) (fileName : FileName name) (enough : dev.nblk * 512 < fuel) :
    ∃ opened, fatVfsOpen platform fuel uninit s (dir ++ [0x2f, 0x2e, 0x2e, 0x2f] ++ name) flags = .ok opened ∧
      openedDesc opened = if findSlot s.driver = none then none
        else fileInside contents dev.nblk (clusterToPos s.driver) flags (fatGetRoot s.driver) dir name := by
  cases named : directoryNamed contents dev.nblk (fatGetRoot s.driver) dir with
  | none =>
      obtain ⟨inside, _, _, entered⟩ := @walkPath_lookup World platform dev contents s
        { de := fatGetRoot s.driver, deInfo := uninit, pathBuf := [] } fuel dir ([0x2e, 0x2e] ++ 0x2f :: name) volume
        coherent root.toSearchable (fatGetRoot_aligned sectorSize) fits.component dirName (List.cons_ne_nil _ _) rfl
        enough
      rw [fatVfsOpen_eq, parentPath_eq, entered, named, fileInside, named]
      refine ⟨(0, inside), rfl, ?_⟩
      rw [openedDesc_failed]
      exact (ite_self none).symm
  | some deInfo =>
      obtain ⟨behind, parent, only, coherent, opens⟩ := @fatVfsOpen_enters World platform dev contents s fuel name dir
        deInfo uninit flags volume coherent sectorSize root fits.component named dirName fileName enough
      rw [opens, fileInside, named, Option.bind_some, ← only.findSlot]
      exact finishOpen_lookup volume coherent (root.dots deInfo named).toSearchable
        (clusterToPos_aligned sectorSize deInfo.cluster) (fits.inside deInfo named) fileName rfl enough

theorem fatVfsOpen_name (uninit : FatDirentInfo) (flags : Nat) (volume : Volume dev contents)
    (coherent : Coherent s.driver.blkCache dev contents) (sectorSize : s.driver.sectorSize = 512)
    (searchable : Searchable dev.nblk (fatGetRoot s.driver))
    (fits : SearchFits contents dev.nblk (fatGetRoot s.driver) name) (fileName : FileName name)
    (enough : dev.nblk * 512 < fuel) :
    ∃ opened, fatVfsOpen platform fuel uninit s name flags = .ok opened ∧ openedDesc opened =
      if findSlot s.driver = none then none else fileNamed contents dev.nblk flags (fatGetRoot s.driver) name := by
  rw [fatVfsOpen_eq]
  exact finishOpen_lookup volume coherent searchable (fatGetRoot_aligned sectorSize) fits fileName rfl enough

/-- An open of each of the two paths returns only if all searches fit. -/
theorem searchesFit_of_returned {first second : Nat × FatState World} (uninit : FatDirentInfo) (flags : Nat)
    (volume : Volume dev contents) (coherent : Coherent s.driver.blkCache dev contents)
    (sectorSize : s.driver.sectorSize = 512)
    (root : RootDirectory contents dev.nblk (clusterToPos s.driver) (fatGetRoot s.driver) dir)
    (dirName : FileName dir) (fileName : FileName name) (enough : dev.nblk * 512 < fuel)
    (through : fatVfsOpen platform fuel uninit s (dir ++ [0x2f, 0x2e, 0x2e, 0x2f] ++ name) flags = .ok first)
    (straight : fatVfsOpen platform fuel uninit s name flags = .ok second) :
    SearchesFit contents dev.nblk (clusterToPos s.driver) (fatGetRoot s.driver) dir name := by
  have aligned := fatGetRoot_aligned sectorSize
  have more : [0x2e, 0x2e] ++ 0x2f :: name ≠ [] := List.cons_ne_nil _ _
  have component : SearchFits contents dev.nblk (fatGetRoot s.driver) dir := by
    by_contra unfit
    rw [fatVfsOpen_eq, parentPath_eq, walkPath_component dirName more rfl,
      enterDirent_unfit volume coherent root.toSearchable aligned unfit enough] at through
    cases through
  refine ⟨?_, component, fun deInfo named => ?_⟩
  · by_contra unfit
    rw [fatVfsOpen_eq, finishOpen_unfit volume coherent root.toSearchable aligned unfit fileName rfl enough] at straight
    cases straight
  · by_contra unfit
    obtain ⟨behind, parent, _, coherent, opens⟩ := @fatVfsOpen_enters World platform dev contents s fuel name dir
      deInfo uninit flags volume coherent sectorSize root component named dirName fileName enough
    rw [opens, finishOpen_unfit volume coherent (root.dots deInfo named).toSearchable
      (clusterToPos_aligned sectorSize deInfo.cluster) unfit fileName rfl enough] at through
    cases through

theorem sameOutcome_iff (uninit : FatDirentInfo) (flags : Nat) (volume : Volume dev contents)
    (coherent : Coherent s.driver.blkCache dev contents) (sectorSize : s.driver.sectorSize = 512)
    (root : RootDirectory contents dev.nblk (clusterToPos s.driver) (fatGetRoot s.driver) dir)
    (dirName : FileName dir) (fileName : FileName name) (enough : dev.nblk * 512 < fuel) :
    SameOutcome platform fuel uninit s flags (dir ++ [0x2f, 0x2e, 0x2e, 0x2f] ++ name) name ↔
      SearchesFit contents dev.nblk (clusterToPos s.driver) (fatGetRoot s.driver) dir name ∧
        (findSlot s.driver = none ∨
          fileInside contents dev.nblk (clusterToPos s.driver) flags (fatGetRoot s.driver) dir name =
            fileNamed contents dev.nblk flags (fatGetRoot s.driver) name) := by
  by_cases fits : SearchesFit contents dev.nblk (clusterToPos s.driver) (fatGetRoot s.driver) dir name
  · obtain ⟨first, through, descs⟩ := @fatVfsOpen_parent World platform dev contents s fuel name dir uninit flags
      volume coherent sectorSize root fits dirName fileName enough
    obtain ⟨second, straight, descs'⟩ := @fatVfsOpen_name World platform dev contents s fuel name uninit flags volume
      coherent sectorSize root.toSearchable fits.straight fileName enough
    have same : SameOutcome platform fuel uninit s flags (dir ++ [0x2f, 0x2e, 0x2e, 0x2f] ++ name) name ↔
        openedDesc first = openedDesc second := by
      constructor
      · intro outcome
        obtain ⟨left, right, opened, opened', equal⟩ := outcome
        cases through.symm.trans opened
        cases straight.symm.trans opened'
        exact equal
      · exact fun equal => ⟨first, second, through, straight, equal⟩
    rw [same, descs, descs', and_iff_right fits]
    by_cases full : findSlot s.driver = none
    · simp [full]
    · simp [full]
  · refine iff_of_false (fun outcome => ?_) fun holds => fits holds.1
    obtain ⟨first, second, through, straight, _⟩ := outcome
    exact fits (searchesFit_of_returned uninit flags volume coherent sectorSize root dirName fileName enough through
      straight)

/-- On a volume, in every reachable state of a driver, `d/../f` comes to the same as `f`
exactly when the block cache has a buffer, the long-name entries that the searches meet fit
into the name and, besides, no descriptor is free or `f` stands for the same file in the
directory that `d` leads to as in the root. -/
theorem fat_open_parent_iff (platform : Platform World) (dev : Blkdev World) (session : FatSession World)
    (reached : (fatSystem platform dev).Reachable session) (contents : Nat → List UInt8) (volume : Volume dev contents)
    (dir name : List UInt8) (dirName : FileName dir) (fileName : FileName name)
    (root : RootDirectory contents dev.nblk (clusterToPos session.driver) (fatGetRoot session.driver) dir)
    (flags fuel : Nat) (enough : dev.nblk * 512 < fuel) (uninit : FatDirentInfo) (world : World) :
    SameOutcome platform fuel uninit { driver := session.driver, world } flags
        (dir ++ [0x2f, 0x2e, 0x2e, 0x2f] ++ name) name ↔
      session.driver.blkCache.buf ≠ none ∧
        SearchesFit contents dev.nblk (clusterToPos session.driver) (fatGetRoot session.driver) dir name ∧
          ((∀ slot : Fin fatMaxFileDescs, (session.driver.fileDescs.get slot).IsOpen) ∨
            fileInside contents dev.nblk (clusterToPos session.driver) flags (fatGetRoot session.driver) dir name =
              fileNamed contents dev.nblk flags (fatGetRoot session.driver) name) := by
  have ok := fat_reachable_ok reached
  have sectorSize := ok.sectorSize volume
  by_cases null : session.driver.blkCache.buf = none
  · refine iff_of_false (fun outcome => ?_) fun holds => holds.1 null
    obtain ⟨_, second, _, straight, _⟩ := outcome
    have stopped : enterDirent platform fuel { driver := session.driver, world } (fatGetRoot session.driver) name =
        .error .nullDeref :=
      enterDirent_null volume ok.blkdev null root.toSearchable (fatGetRoot_aligned sectorSize) enough
    rw [fatVfsOpen_eq, walkPath_last fileName rfl, stopped] at straight
    cases straight
  · rw [← findSlot_none_iff, and_iff_right null]
    exact @sameOutcome_iff World platform dev contents { driver := session.driver, world } fuel name dir uninit flags
      volume (ok.coherent volume null) sectorSize root dirName fileName enough

end Walks

/-- The directory `D` begins with its two entries and has one file. -/
def parentDir : List UInt8 :=
  stdEnt [0x2e, 0x20, 0x20, 0x20, 0x20, 0x20, 0x20, 0x20, 0x20, 0x20, 0x20] 0x10 3 0 ++
    stdEnt [0x2e, 0x2e, 0x20, 0x20, 0x20, 0x20, 0x20, 0x20, 0x20, 0x20, 0x20] 0x10 0 0 ++ smallDir

def parentContents : Nat → List UInt8
  | 0 => smallBoot
  | 2 => padBlock smallRoot
  | 4 => padBlock parentDir
  | _ => List.replicate 512 0

def parentDisk : Blkdev Unit := memoryDisk parentContents 4100

def parentDriver : FatDriver Unit :=
  { smallDriver with blkCache := (blkCacheCreate .zeroed parentDisk ()).1 }

theorem parentDriver_reachable : (fatSystem .zeroed parentDisk).Reachable { driver := parentDriver, issued := [] } :=
  .initial ⟨(), (), bootDisk_created rfl, rfl⟩

theorem parentDriver_allocated : parentDriver.blkCache.buf ≠ none := by
  simp [parentDriver, blkCacheCreate, Platform.alloc, Platform.zeroed]

theorem parentDisk_volume : Volume parentDisk parentContents := by
  have sized : ∀ blk, (parentContents blk).length = 512 := fun blk => by
    unfold parentContents
    split
    · exact smallBoot_length
    · exact padBlock_length (by decide)
    · exact padBlock_length (by decide)
    · exact List.length_replicate
  exact ⟨memoryDisk_delivers sized 4100, rfl, by decide⟩

theorem lookupAt_upTo {contents : Nat → List UInt8} {nblk pos last : Nat} {name : List UInt8}
    (bound : last < (nblk * 512 - pos) / 32) (ends : EndsDirectory (entAt contents (pos + 32 * last))) :
    lookupAt contents nblk pos name =
      (firstNamed name (logicalEnts pos emptyName pos (entsFrom contents pos last))).map fun logical =>
        logical.dirent.info := by
  rw [lookupAt, listing, logicalEnts_upTo bound ends]

theorem parentRoot_ents : EndsDirectory (entAt parentContents (1024 + 32 * 3)) ∧
    ∀ index < 3, OrderFits (entAt parentContents (1024 + 32 * index)) := by
  decide +kernel

theorem parentDir_ents : EndsDirectory (entAt parentContents (2048 + 32 * 3)) ∧
    ∀ index < 3, OrderFits (entAt parentContents (2048 + 32 * index)) := by
  decide +kernel

theorem parentDir_dots : DotDirectory parentContents 4100 2048 3 where
  toSearchable := ⟨by decide, by decide⟩
  self := ⟨by decide +kernel, by decide +kernel, by decide +kernel⟩
  parent := ⟨by decide +kernel, by decide +kernel, by decide +kernel⟩

theorem parentRoot_named :
    ∃ deInfo, directoryNamed parentContents 4100 1024 [0x64] = some deInfo ∧ deInfo.cluster = 3 := by
  have found : (directoryNamed parentContents 4100 1024 [0x64]).map FatDirentInfo.cluster = some 3 := by
    rw [directoryNamed, lookupAt_upTo (by decide) parentRoot_ents.1]
    decide +kernel
  exact Option.map_eq_some_iff.mp found

theorem parentRoot_directory :
    RootDirectory parentContents 4100 (clusterToPos parentDriver) (fatGetRoot parentDriver) [0x64] := by
  have root : fatGetRoot parentDriver = 1024 := by decide
  rw [root]
  refine ⟨⟨by decide, by decide⟩, fun deInfo named => ?_⟩
  obtain ⟨found, named', cluster⟩ := parentRoot_named
  cases named.symm.trans named'
  have inside : clusterToPos parentDriver 3 = 2048 := by decide
  rw [cluster, inside]
  exact parentDir_dots

theorem parentDir_inside (flags : Nat) (name : List UInt8) :
    fileInside parentContents 4100 (clusterToPos parentDriver) flags 1024 [0x64] name =
      fileNamed parentContents 4100 flags 2048 name := by
  obtain ⟨found, named, cluster⟩ := parentRoot_named
  have inside : clusterToPos parentDriver 3 = 2048 := by decide
  rw [fileInside, named, Option.bind_some, cluster, inside]

/-- The file `a.txt` is in the root alone, and `c.txt` in neither directory. -/
theorem parentContents_files :
    fileNamed parentContents 4100 1 1024 [0x61, 0x2e, 0x74, 0x78, 0x74] = some (2, 5) ∧
      fileNamed parentContents 4100 1 2048 [0x61, 0x2e, 0x74, 0x78, 0x74] = none ∧
      fileNamed parentContents 4100 1 1024 [0x63, 0x2e, 0x74, 0x78, 0x74] = none ∧
      fileNamed parentContents 4100 1 2048 [0x63, 0x2e, 0x74, 0x78, 0x74] = none := by
  simp only [fileNamed, lookupAt_upTo (show 3 < (4100 * 512 - 1024) / 32 by decide) parentRoot_ents.1,
    lookupAt_upTo (show 3 < (4100 * 512 - 2048) / 32 by decide) parentDir_ents.1]
  decide +kernel

theorem parentContents_fit (name : List UInt8) :
    SearchesFit parentContents 4100 (clusterToPos parentDriver) (fatGetRoot parentDriver) [0x64] name := by
  have root : fatGetRoot parentDriver = 1024 := by decide
  have inRoot : ∀ name, SearchFits parentContents 4100 1024 name := fun name =>
    OrdersMet.of_end parentRoot_ents.1 parentRoot_ents.2
  rw [root]
  refine ⟨inRoot name, inRoot [0x64], fun deInfo named => ?_⟩
  obtain ⟨found, named', cluster⟩ := parentRoot_named
  cases named.symm.trans named'
  have inside : clusterToPos parentDriver 3 = 2048 := by decide
  rw [cluster, inside]
  exact OrdersMet.of_end parentDir_ents.1 parentDir_ents.2

/-- Neither the root nor the directory has the file `c.txt`. -/
theorem fat_open_parent_iff_missing : SameOutcome .zeroed 2099201 (direntInfo [] [])
    { driver := parentDriver, world := () } 1 [0x64, 0x2f, 0x2e, 0x2e, 0x2f, 0x63, 0x2e, 0x74, 0x78, 0x74]
      [0x63, 0x2e, 0x74, 0x78, 0x74] := by
  have root : fatGetRoot parentDriver = 1024 := by decide
  apply (fat_open_parent_iff .zeroed parentDisk _ parentDriver_reachable parentContents parentDisk_volume
    [0x64] [0x63, 0x2e, 0x74, 0x78, 0x74] ⟨by simp, by simp, by simp⟩
    ⟨by simp, by simp, by simp⟩ parentRoot_directory 1 2099201 (by decide) (direntInfo [] []) ()).mpr
  refine ⟨parentDriver_allocated, parentContents_fit _, Or.inr ?_⟩
  simp only [root, show parentDisk.nblk = 4100 from rfl, parentDir_inside, parentContents_files]

theorem parentDriver_free : findSlot parentDriver ≠ none := fun full =>
  fresh_closed ⟨0, fatMaxFileDescs_pos⟩ (findSlot_none_iff.mp full _)

/-- The root has the file `a.txt`, but the path through the directory does not lead to it. -/
theorem fat_open_parent_stays :
    (fatSystem .zeroed parentDisk).Reachable { driver := parentDriver, issued := [] } ∧
      Volume parentDisk parentContents ∧
      RootDirectory parentContents 4100 (clusterToPos parentDriver) (fatGetRoot parentDriver) [0x64] ∧
      (∃ deInfo, directoryNamed parentContents 4100 (fatGetRoot parentDriver) [0x64] = some deInfo) ∧
      (∃ first second,
        fatVfsOpen .zeroed 2099201 (direntInfo [] []) { driver := parentDriver, world := () }
            [0x64, 0x2f, 0x2e, 0x2e, 0x2f, 0x61, 0x2e, 0x74, 0x78, 0x74] 1 = .ok first ∧
          fatVfsOpen .zeroed 2099201 (direntInfo [] []) { driver := parentDriver, world := () }
            [0x61, 0x2e, 0x74, 0x78, 0x74] 1 = .ok second ∧
          openedDesc first = none ∧ openedDesc second = some (2, 5)) ∧
      ¬SameOutcome .zeroed 2099201 (direntInfo [] []) { driver := parentDriver, world := () } 1
        [0x64, 0x2f, 0x2e, 0x2e, 0x2f, 0x61, 0x2e, 0x74, 0x78, 0x74] [0x61, 0x2e, 0x74, 0x78, 0x74] := by
  have root : fatGetRoot parentDriver = 1024 := by decide
  have nblk : parentDisk.nblk = 4100 := rfl
  have ok := fat_reachable_ok parentDriver_reachable
  have coherent := ok.coherent parentDisk_volume parentDriver_allocated
  have fileName : FileName [0x61, 0x2e, 0x74, 0x78, 0x74] := ⟨by simp, by simp, by simp⟩
  have dirName : FileName [0x64] := ⟨by simp, by simp, by simp⟩
  have searchable : Searchable parentDisk.nblk (fatGetRoot parentDriver) := parentRoot_directory.toSearchable
  obtain ⟨first, through, missing⟩ := @fatVfsOpen_parent Unit .zeroed parentDisk parentContents
    { driver := parentDriver, world := () } 2099201 [0x61, 0x2e, 0x74, 0x78, 0x74] [0x64] (direntInfo [] []) 1
    parentDisk_volume coherent rfl parentRoot_directory (parentContents_fit _) dirName fileName (by decide)
  obtain ⟨second, straight, opened⟩ := @fatVfsOpen_name Unit .zeroed parentDisk parentContents
    { driver := parentDriver, world := () } 2099201 [0x61, 0x2e, 0x74, 0x78, 0x74] (direntInfo [] []) 1
    parentDisk_volume coherent rfl searchable (parentContents_fit [0x61, 0x2e, 0x74, 0x78, 0x74]).straight fileName
    (by decide)
  rw [if_neg parentDriver_free] at missing opened
  simp only [root, nblk, parentDir_inside, parentContents_files] at missing opened
  obtain ⟨deInfo, named, _⟩ := parentRoot_named
  refine ⟨parentDriver_reachable, parentDisk_volume, parentRoot_directory, ⟨deInfo, root ▸ named⟩,
    ⟨first, second, through, straight, missing, opened⟩, fun outcome => ?_⟩
  obtain ⟨left, right, opened', opened'', equal⟩ := outcome
  cases through.symm.trans opened'
  cases straight.symm.trans opened''
  rw [missing, opened] at equal
  cases equal

end Bwuhos
