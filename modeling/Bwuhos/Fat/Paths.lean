import Bwuhos.Fat.Resolve

namespace Bwuhos

open Bwuhos.Data

/-! # Paths

Where `fat_vfs_open` writes the components of a path, and where it reads the path.
-/

section Writes

variable {World : Type}

/-- The indices of `path_buf` that the loop of `fat_vfs_open` and the statement behind it
write to.  The list ends with the first index behind the buffer. -/
def pathWrites (platform : Platform World) (fuel : Nat) : List UInt8 → PathWalk → FatState World → List Nat
  | [], walk, _ => if walk.pathBuf = [] then [] else [walk.pathBuf.length]
  | ch :: path, walk, s =>
      if walk.pathBuf.length ≥ 256 then [walk.pathBuf.length]
      else if ch ≠ 0x2f then
        walk.pathBuf.length :: pathWrites platform fuel path { walk with pathBuf := walk.pathBuf ++ [ch] } s
      else if walk.pathBuf = [] then pathWrites platform fuel path walk s
      else walk.pathBuf.length ::
        match enterDirent platform fuel s walk.de walk.pathBuf with
        | .error _ => []
        | .ok (none, _) => []
        | .ok (some deInfo, s) =>
            if deInfo.attr &&& fdaDir = 0 ∧ path ≠ [] then []
            else pathWrites platform fuel path
              { de := clusterToPos s.driver deInfo.cluster, deInfo, pathBuf := [] } s

/-- The walk over the components of a path from the directory at a position gets to a
component: each one before it is a directory. -/
inductive Reaches (platform : Platform World) (fuel : Nat) :
    FatState World → Nat → List (List UInt8) → FatState World → Nat → List UInt8 → Prop
  | first {s : FatState World} {de : Nat} {name : List UInt8} {names : List (List UInt8)} :
      Reaches platform fuel s de (name :: names) s de name
  | later {s after last : FatState World} {de pos : Nat} {name component : List UInt8} {names : List (List UInt8)}
      {deInfo : FatDirentInfo} (entered : enterDirent platform fuel s de name = .ok (some deInfo, after))
      (directory : deInfo.attr &&& fdaDir ≠ 0)
      (rest : Reaches platform fuel after (clusterToPos after.driver deInfo.cluster) names last pos component) :
      Reaches platform fuel s de (name :: names) last pos component

variable {platform : Platform World} {fuel : Nat} {s last : FatState World} {de pos : Nat} {name component : List UInt8}
  {names : List (List UInt8)}

theorem reaches_cons : Reaches platform fuel s de (name :: names) last pos component ↔
    (last = s ∧ pos = de ∧ component = name) ∨
      ∃ deInfo after, enterDirent platform fuel s de name = .ok (some deInfo, after) ∧
        deInfo.attr &&& fdaDir ≠ 0 ∧
          Reaches platform fuel after (clusterToPos after.driver deInfo.cluster) names last pos component := by
  constructor
  · intro reaches
    cases reaches with
    | first => exact Or.inl ⟨rfl, rfl, rfl⟩
    | later entered directory rest => exact Or.inr ⟨_, _, entered, directory, rest⟩
  · intro either
    cases either with
    | inl here =>
        obtain ⟨rfl, rfl, rfl⟩ := here
        exact .first
    | inr there =>
        obtain ⟨_, _, entered, directory, rest⟩ := there
        exact .later entered directory rest

theorem not_reaches_nil : ¬Reaches platform fuel s de [] last pos component := fun reaches => by cases reaches

/-- Every component that the walk gets to leaves room for its terminator. -/
def ReachedShort (platform : Platform World) (fuel : Nat) (s : FatState World) (de : Nat)
    (names : List (List UInt8)) : Prop :=
  ∀ last pos component, Reaches platform fuel s de names last pos component → component.length ≤ 255

theorem reachedShort_nil : ReachedShort platform fuel s de [] := fun _ _ _ reaches =>
  absurd reaches not_reaches_nil

theorem reachedShort_cons : ReachedShort platform fuel s de (name :: names) ↔ name.length ≤ 255 ∧
    ∀ deInfo after, enterDirent platform fuel s de name = .ok (some deInfo, after) → deInfo.attr &&& fdaDir ≠ 0 →
      ReachedShort platform fuel after (clusterToPos after.driver deInfo.cluster) names := by
  constructor
  · intro short
    refine ⟨short s de name .first, fun deInfo after entered directory last pos component reaches => ?_⟩
    exact short last pos component (.later entered directory reaches)
  · intro short last pos component reaches
    cases reaches_cons.mp reaches with
    | inl here => exact here.2.2 ▸ short.1
    | inr there =>
        obtain ⟨deInfo, after, entered, directory, rest⟩ := there
        exact short.2 deInfo after entered directory last pos component rest

theorem reachedShort_failed (failed : ∀ deInfo after, enterDirent platform fuel s de name ≠ .ok (some deInfo, after)) :
    ReachedShort platform fuel s de (name :: names) ↔ name.length ≤ 255 := by
  rw [reachedShort_cons]
  exact and_iff_left fun deInfo after entered => absurd entered (failed deInfo after)

theorem reachedShort_entered {deInfo : FatDirentInfo} {after : FatState World}
    (entering : enterDirent platform fuel s de name = .ok (some deInfo, after)) :
    ReachedShort platform fuel s de (name :: names) ↔ name.length ≤ 255 ∧
      (deInfo.attr &&& fdaDir ≠ 0 →
        ReachedShort platform fuel after (clusterToPos after.driver deInfo.cluster) names) := by
  rw [reachedShort_cons]
  constructor
  · intro short
    exact ⟨short.1, short.2 deInfo after entering⟩
  · intro short
    refine ⟨short.1, fun deInfo' after' entered directory => ?_⟩
    cases entering.symm.trans entered
    exact short.2 directory

/-- Where the walk goes on behind a component that is not a directory, the path has ended. -/
theorem ended_of_file {deInfo : FatDirentInfo} {path : List UInt8}
    (goesOn : ¬(deInfo.attr &&& fdaDir = 0 ∧ path ≠ [])) (file : ¬deInfo.attr &&& fdaDir ≠ 0) : path = [] := by
  by_contra more
  exact goesOn ⟨not_not.mp file, more⟩

theorem pathWrites_inside_iff (platform : Platform World) (fuel : Nat) (path : List UInt8) (walk : PathWalk)
    (s : FatState World) : (∀ index ∈ pathWrites platform fuel path walk s, index < 256) ↔
      ReachedShort platform fuel s walk.de (pathComponents walk.pathBuf path) := by
  have nothing : ∀ index ∈ ([] : List Nat), index < 256 := fun index member => absurd member List.not_mem_nil
  fun_induction pathWrites platform fuel path walk s with
  | case1 walk s empty =>
      rw [pathComponents, if_pos empty]
      exact iff_of_true nothing reachedShort_nil
  | case2 walk s nonempty =>
      rw [pathComponents, if_neg nonempty, reachedShort_cons, List.forall_mem_singleton, Nat.lt_succ_iff]
      exact (and_iff_left fun _ _ _ _ => reachedShort_nil).symm
  | case3 ch path walk s full =>
      have nonempty : walk.pathBuf ≠ [] := fun empty => by
        rw [empty] at full
        exact absurd full (by decide)
      obtain ⟨name, names, same, bound⟩ := pathComponents_length (ch :: path) nonempty
      rw [same, reachedShort_cons, List.forall_mem_singleton]
      exact iff_of_false (Nat.not_lt_of_le full) fun short => by omega
  | case4 ch path walk s room letter ih =>
      rw [pathComponents_letter letter, List.forall_mem_cons]
      exact (and_iff_right (Nat.lt_of_not_le room)).trans ih
  | case5 ch path walk s room separator empty ih =>
      rw [pathComponents_skip separator empty]
      exact ih
  | case6 ch path walk s room separator nonempty ih =>
      have fits : walk.pathBuf.length < 256 := Nat.lt_of_not_le room
      have short : walk.pathBuf.length ≤ 255 := Nat.le_of_lt_succ fits
      rw [pathComponents_name separator nonempty, List.forall_mem_cons, and_iff_right fits]
      cases entering : enterDirent platform fuel s walk.de walk.pathBuf with
      | error stop =>
          refine iff_of_true nothing ((reachedShort_failed fun deInfo after entered => ?_).mpr short)
          cases entering.symm.trans entered
      | ok result =>
          obtain ⟨entered, after⟩ := result
          cases entered with
          | none =>
              refine iff_of_true nothing ((reachedShort_failed fun deInfo last entered => ?_).mpr short)
              cases entering.symm.trans entered
          | some deInfo =>
              rw [reachedShort_entered entering, and_iff_right short]
              by_cases directory : deInfo.attr &&& fdaDir ≠ 0
              · simp only
                rw [if_neg fun file => directory file.1, imp_iff_right directory]
                exact ih deInfo after
              · -- behind a file the loop is over, or there is nothing left of the path
                refine iff_of_true ?_ fun further => absurd further directory
                simp only
                split
                · exact nothing
                · next goesOn =>
                    rw [ended_of_file goesOn directory]
                    exact nothing

/-- What `fat_vfs_open` does behind its loop. -/
def finishOpen (platform : Platform World) (fuel flags : Nat) (walked : Option PathWalk × FatState World) :
    Except Stop (Nat × FatState World) :=
  match walked.1 with
  | none => .ok (0, walked.2)
  | some walk =>
      if walk.pathBuf = [] then .ok (openDirent walked.2 walk.deInfo flags)
      else if walk.pathBuf.length ≥ 256 then .error .outOfBounds
      else do
        let (entered, s) ← enterDirent platform fuel walked.2 walk.de walk.pathBuf
        match entered with
        | none => return (0, s)
        | some deInfo => return openDirent s deInfo flags

theorem fatVfsOpen_eq (deInfo : FatDirentInfo) (s : FatState World) (path : List UInt8) (flags : Nat) :
    fatVfsOpen platform fuel deInfo s path flags =
      walkPath platform fuel path { de := fatGetRoot s.driver, deInfo, pathBuf := [] } s >>=
        finishOpen platform fuel flags := by
  unfold fatVfsOpen
  cases walkPath platform fuel path { de := fatGetRoot s.driver, deInfo, pathBuf := [] } s with
  | error stop => rfl
  | ok walked =>
      obtain ⟨walk, after⟩ := walked
      cases walk with
      | none => rfl
      | some walk =>
          simp only [bind, Except.bind, finishOpen]
          split
          · rfl
          · split <;> rfl

/-- A write behind the buffer is where the model stops. -/
theorem walkPath_overrun {path : List UInt8} {walk : PathWalk} {flags index : Nat}
    (written : index ∈ pathWrites platform fuel path walk s) (outside : ¬index < 256) :
    walkPath platform fuel path walk s >>= finishOpen platform fuel flags = .error .outOfBounds := by
  fun_induction pathWrites platform fuel path walk s with
  | case1 => cases written
  | case2 walk s nonempty =>
      obtain rfl := List.mem_singleton.mp written
      simp only [walkPath, bind, Except.bind, finishOpen]
      rw [if_neg nonempty, if_pos (Nat.le_of_not_lt outside)]
  | case3 ch path walk s full =>
      rw [walkPath, if_pos full]
      rfl
  | case4 ch path walk s room letter ih =>
      rw [walkPath_letter room letter]
      exact ih ((List.mem_cons.mp written).resolve_left (by omega))
  | case5 ch path walk s room separator empty ih =>
      rw [walkPath_skip separator empty]
      exact ih written
  | case6 ch path walk s room separator nonempty ih =>
      have later := (List.mem_cons.mp written).resolve_left (by omega)
      cases entering : enterDirent platform fuel s walk.de walk.pathBuf with
      | error stop =>
          rw [entering] at later
          cases later
      | ok result =>
          obtain ⟨entered, after⟩ := result
          rw [entering] at later
          cases entered with
          | none => cases later
          | some deInfo =>
              simp only at later
              split at later
              · cases later
              · next goesOn =>
                  rw [walkPath_entered room separator nonempty entering, if_neg goesOn]
                  exact ih deInfo after later

/-- Behind the loop an open stops only where it enters the last component. -/
theorem finishOpen_stops {walk : PathWalk} {flags : Nat} {stop : Stop} (nonempty : ¬walk.pathBuf = [])
    (fits : walk.pathBuf.length < 256) (stopped : finishOpen platform fuel flags (some walk, s) = .error stop) :
    enterDirent platform fuel s walk.de walk.pathBuf = .error stop := by
  simp only [finishOpen, if_neg nonempty, if_neg (Nat.not_le_of_lt fits), bind, Except.bind] at stopped
  cases entering : enterDirent platform fuel s walk.de walk.pathBuf with
  | error other =>
      rw [entering] at stopped
      cases stopped
      rfl
  | ok result =>
      obtain ⟨entered, after⟩ := result
      rw [entering] at stopped
      cases entered <;> cases stopped

/-- With all writes inside the buffer, an open stops only where it enters a component. -/
theorem walkPath_stops {path : List UInt8} {walk : PathWalk} {flags : Nat} {stop : Stop}
    (inside : ∀ index ∈ pathWrites platform fuel path walk s, index < 256)
    (stopped : walkPath platform fuel path walk s >>= finishOpen platform fuel flags = .error stop) :
    ∃ last pos component, Reaches platform fuel s walk.de (pathComponents walk.pathBuf path) last pos component ∧
      enterDirent platform fuel last pos component = .error stop := by
  fun_induction pathWrites platform fuel path walk s with
  | case1 walk s empty =>
      simp only [walkPath, bind, Except.bind, finishOpen, if_pos empty] at stopped
      cases stopped
  | case2 walk s nonempty =>
      have fits := List.forall_mem_singleton.mp inside
      rw [pathComponents, if_neg nonempty]
      exact ⟨s, walk.de, walk.pathBuf, .first, finishOpen_stops nonempty fits stopped⟩
  | case3 ch path walk s full => exact absurd (List.forall_mem_singleton.mp inside) (by omega)
  | case4 ch path walk s room letter ih =>
      rw [walkPath_letter room letter] at stopped
      rw [pathComponents_letter letter]
      exact ih (List.forall_mem_cons.mp inside).2 stopped
  | case5 ch path walk s room separator empty ih =>
      rw [walkPath_skip separator empty] at stopped
      rw [pathComponents_skip separator empty]
      exact ih inside stopped
  | case6 ch path walk s room separator nonempty ih =>
      have inside := (List.forall_mem_cons.mp inside).2
      rw [pathComponents_name separator nonempty]
      cases entering : enterDirent platform fuel s walk.de walk.pathBuf with
      | error other =>
          rw [walkPath_stopped room separator nonempty entering] at stopped
          cases stopped
          exact ⟨s, walk.de, walk.pathBuf, .first, entering⟩
      | ok result =>
          obtain ⟨entered, after⟩ := result
          rw [entering] at inside
          cases entered with
          | none =>
              rw [walkPath_absent room separator nonempty entering] at stopped
              cases stopped
          | some deInfo =>
              rw [walkPath_entered room separator nonempty entering] at stopped
              simp only at inside
              by_cases refused : deInfo.attr &&& fdaDir = 0 ∧ path ≠ []
              · rw [if_pos refused] at stopped
                cases stopped
              · rw [if_neg refused] at inside stopped
                obtain ⟨last, pos, component, reaches, stops⟩ := ih deInfo after inside stopped
                by_cases directory : deInfo.attr &&& fdaDir ≠ 0
                · exact ⟨last, pos, component, .later entering directory reaches, stops⟩
                · rw [ended_of_file refused directory] at reaches
                  exact absurd reaches not_reaches_nil

/-- The writes to `path_buf` stay inside it exactly when every component that the walk
gets to has at most 255 characters.  An open writes no other index: it stops at the first
one outside, and without one it stops only where a search of a directory does. -/
theorem fat_path_writes_inside_iff (platform : Platform World) (fuel : Nat) (deInfo : FatDirentInfo)
    (s : FatState World) (path : List UInt8) (flags : Nat) :
    ((∀ index ∈ pathWrites platform fuel path { de := fatGetRoot s.driver, deInfo, pathBuf := [] } s, index < 256) ↔
        ∀ last pos component,
          Reaches platform fuel s (fatGetRoot s.driver) (pathComponents [] path) last pos component →
            component.length ≤ 255) ∧
      ((∃ index ∈ pathWrites platform fuel path { de := fatGetRoot s.driver, deInfo, pathBuf := [] } s, ¬index < 256) →
        fatVfsOpen platform fuel deInfo s path flags = .error .outOfBounds) ∧
      ((∀ index ∈ pathWrites platform fuel path { de := fatGetRoot s.driver, deInfo, pathBuf := [] } s, index < 256) →
        ∀ stop, fatVfsOpen platform fuel deInfo s path flags = .error stop → ∃ last pos component,
          Reaches platform fuel s (fatGetRoot s.driver) (pathComponents [] path) last pos component ∧
            enterDirent platform fuel last pos component = .error stop) := by
  refine ⟨pathWrites_inside_iff platform fuel path _ s, fun overrun => ?_, fun inside stop stopped => ?_⟩
  · obtain ⟨index, written, outside⟩ := overrun
    rw [fatVfsOpen_eq]
    exact walkPath_overrun written outside
  · rw [fatVfsOpen_eq] at stopped
    exact walkPath_stops inside stopped

end Writes

/-- `path[index]` of a string, the characters of which are listed without the terminator.
A read behind the terminator stops with `fault`. -/
def charAt (fault : Stop) (path : List UInt8) (index : Nat) : Except Stop UInt8 :=
  if index < path.length then .ok (path.getD index 0)
  else if index = path.length then .ok 0
  else .error fault

section Reads

variable {World : Type}

/-- `!(de_info.attr & FDA_DIR) && path[i + 1]`. -/
def fileGoesOn (fault : Stop) (path : List UInt8) (i : Nat) (deInfo : FatDirentInfo) : Except Stop Bool :=
  if deInfo.attr &&& fdaDir ≠ 0 then .ok false
  else do
    let next ← charAt fault path (i + 1)
    return next ≠ 0

/-- The loop of `fat_vfs_open` as it reads the path, of which `left` characters may be left. -/
def walkPathAt (platform : Platform World) (fuel : Nat) (fault : Stop) (path : List UInt8) :
    (left i : Nat) → PathWalk → FatState World → Except Stop (Option PathWalk × FatState World)
  | 0, _, _, _ => .error .outOfFuel
  | left + 1, i, walk, s => do
      let ch ← charAt fault path i
      if ch = 0 then .ok (some walk, s)
      else if walk.pathBuf.length ≥ 256 then .error .outOfBounds
      else if ch ≠ 0x2f then
        walkPathAt platform fuel fault path left (i + 1) { walk with pathBuf := walk.pathBuf ++ [ch] } s
      else if walk.pathBuf = [] then walkPathAt platform fuel fault path left (i + 1) walk s
      else do
        let (entered, s) ← enterDirent platform fuel s walk.de walk.pathBuf
        match entered with
        | none => return (none, s)
        | some deInfo =>
            let goesOn ← fileGoesOn fault path i deInfo
            if goesOn then return (none, s)
            walkPathAt platform fuel fault path left (i + 1)
              { de := clusterToPos s.driver deInfo.cluster, deInfo, pathBuf := [] } s

/-- `fat_vfs_open` with the string that begins at `path + start`. -/
def fatVfsOpenAt (platform : Platform World) (fuel : Nat) (fault : Stop) (deInfo : FatDirentInfo)
    (s : FatState World) (path : List UInt8) (start flags : Nat) : Except Stop (Nat × FatState World) :=
  walkPathAt platform fuel fault path (path.length + 1) start { de := fatGetRoot s.driver, deInfo, pathBuf := [] } s >>=
    finishOpen platform fuel flags

variable {platform : Platform World} {fuel left i start : Nat} {fault : Stop} {path : List UInt8} {walk : PathWalk}
  {s : FatState World}

theorem charAt_end : charAt fault path path.length = .ok 0 := by
  rw [charAt, if_neg (Nat.lt_irrefl _), if_pos rfl]

theorem charAt_beyond (beyond : path.length < i) : charAt fault path i = .error fault := by
  rw [charAt, if_neg (by omega), if_neg (by omega)]

/-- A character of a string is not a terminator. -/
theorem charAt_inside (characters : ∀ ch ∈ path, ch ≠ 0) (inside : i < path.length) :
    ∃ ch, ch ≠ 0 ∧ path.drop i = ch :: path.drop (i + 1) ∧ charAt fault path i = .ok ch := by
  refine ⟨path[i], characters _ (List.getElem_mem inside), List.drop_eq_getElem_cons inside, ?_⟩
  rw [charAt, if_pos inside, List.getD_eq_getElem _ _ inside]

theorem fileGoesOn_eq {deInfo : FatDirentInfo} (characters : ∀ ch ∈ path, ch ≠ 0) (inside : i < path.length) :
    fileGoesOn fault path i deInfo = .ok (decide (deInfo.attr &&& fdaDir = 0 ∧ path.drop (i + 1) ≠ [])) := by
  unfold fileGoesOn
  by_cases directory : deInfo.attr &&& fdaDir ≠ 0
  · rw [if_pos directory, decide_eq_false fun file => directory file.1]
  · rw [if_neg directory]
    rcases Nat.lt_or_eq_of_le (Nat.succ_le_of_lt inside) with before | last
    · obtain ⟨ch, nonzero, dropped, read⟩ : ∃ ch, ch ≠ 0 ∧ path.drop (i + 1) = ch :: path.drop (i + 1 + 1) ∧
          charAt fault path (i + 1) = .ok ch := charAt_inside characters before
      rw [read, dropped, decide_eq_true ⟨not_not.mp directory, List.cons_ne_nil _ _⟩]
      exact congrArg Except.ok (decide_eq_true nonzero)
    · have ended : path.drop (i + 1) = [] := List.drop_eq_nil_of_le (Nat.le_of_eq last.symm)
      rw [show i + 1 = path.length from last] at ended ⊢
      rw [charAt_end, decide_eq_false fun more => more.2 ended]
      rfl

/-- The loop of `fat_vfs_open` reads no character behind the terminator. -/
theorem walkPathAt_eq (characters : ∀ ch ∈ path, ch ≠ 0) (inside : i ≤ path.length) (enough : path.length - i < left) :
    walkPathAt platform fuel fault path left i walk s = walkPath platform fuel (path.drop i) walk s := by
  induction left generalizing i walk s with
  | zero => exact absurd enough (Nat.not_lt_zero _)
  | succ left ih =>
      rcases Nat.lt_or_eq_of_le inside with before | rfl
      · obtain ⟨ch, nonzero, dropped, read⟩ : ∃ ch, ch ≠ 0 ∧ path.drop i = ch :: path.drop (i + 1) ∧
            charAt fault path i = .ok ch := charAt_inside characters before
        have rest : ∀ walk s, walkPathAt platform fuel fault path left (i + 1) walk s =
            walkPath platform fuel (path.drop (i + 1)) walk s := fun walk s => ih before (by omega)
        rw [walkPathAt, read, dropped, walkPath]
        simp only [bind, Except.bind]
        rw [if_neg nonzero]
        simp only [rest, fileGoesOn_eq characters before]
        cases enterDirent platform fuel s walk.de walk.pathBuf with
        | error stop => rfl
        | ok result =>
            obtain ⟨entered, after⟩ := result
            cases entered with
            | none => rfl
            | some deInfo => simp only [decide_eq_true_eq]
      · rw [walkPathAt, charAt_end, List.drop_length]
        rfl

theorem fatVfsOpenAt_eq {deInfo : FatDirentInfo} {flags : Nat} (characters : ∀ ch ∈ path, ch ≠ 0)
    (inside : start ≤ path.length) : fatVfsOpenAt platform fuel fault deInfo s path start flags =
      fatVfsOpen platform fuel deInfo s (path.drop start) flags := by
  rw [fatVfsOpenAt, walkPathAt_eq characters inside (by omega), fatVfsOpen_eq]

theorem fatVfsOpenAt_beyond {deInfo : FatDirentInfo} {flags : Nat} (beyond : path.length < start) :
    fatVfsOpenAt platform fuel fault deInfo s path start flags = .error fault := by
  rw [fatVfsOpenAt, walkPathAt, charAt_beyond beyond]
  rfl

end Reads

theorem fat_path_writes_inside_iff_short : ∀ index ∈ pathWrites .zeroed 65569 [0x61, 0x2e, 0x74, 0x78, 0x74]
    { de := fatGetRoot smallDriver, deInfo := direntInfo [] [], pathBuf := [] } { driver := smallDriver, world := () },
      index < 256 := by
  refine (fat_path_writes_inside_iff .zeroed 65569 (direntInfo [] []) { driver := smallDriver, world := () }
    [0x61, 0x2e, 0x74, 0x78, 0x74] 1).1.mpr fun last pos component reaches => ?_
  cases reaches with
  | first => decide
  | later _ _ rest => exact absurd rest not_reaches_nil

theorem fat_path_writes_outside :
    256 ∈ pathWrites .zeroed 65569 (List.replicate 256 0x61)
        { de := fatGetRoot smallDriver, deInfo := direntInfo [] [], pathBuf := [] }
        { driver := smallDriver, world := () } ∧
      fatVfsOpen .zeroed 65569 (direntInfo [] []) { driver := smallDriver, world := () } (List.replicate 256 0x61) 1 =
        .error .outOfBounds := by
  have written : 256 ∈ pathWrites .zeroed 65569 (List.replicate 256 0x61)
      { de := fatGetRoot smallDriver, deInfo := direntInfo [] [], pathBuf := [] }
      { driver := smallDriver, world := () } := by
    decide +kernel
  refine ⟨written, ?_⟩
  rw [fatVfsOpen_eq]
  exact walkPath_overrun written (by decide)

end Bwuhos
