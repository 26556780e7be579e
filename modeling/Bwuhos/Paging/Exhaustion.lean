import Bwuhos.Paging.Runs

namespace Bwuhos

open Bwuhos.Data

/-! # Running out of page frames

`next_pg_dir` takes whatever `pmm_alloc` returns for a table, so that a null answer makes
one of page 0.
-/

def InPage (page addr : Nat) : Prop := page ≤ addr ∧ addr < page + 4096

/-- The address lies in a table of the map. -/
def InTables (m : PagingMem) (root addr : Nat) : Prop :=
  ∃ path frame, path.length ≤ 3 ∧ tableAt m.mem root path = some frame ∧ InPage (4096 * frame) addr

structure MapWellFormed (m : PagingMem) (root : Nat) : Prop extends MapValid m root where
  physical : root < 2 ^ 40
  notNull : ∀ path frame, path.length ≤ 3 → tableAt m.mem root path = some frame → frame ≠ 0

/-- A word outside the tables of the map and the pages that `pmm_alloc` returned keeps what
it holds, and the other virtual pages keep their frames. -/
structure MapContained (m : PagingMem) (root paddr vaddr flags : Nat) : Prop where
  outside : ∀ addr value, ¬InTables m root addr →
    (∀ call, m.taken ≤ call → call < (pagingMap m (4096 * root) paddr vaddr flags).taken →
      m.pmm call ≠ physAddrNull → ¬InPage (m.pmm call) addr) →
    (pagingMap (m.store addr value) (4096 * root) paddr vaddr flags).mem addr = value
  others : ∀ other, virtualPage other ≠ virtualPage vaddr →
    translate (pagingMap m (4096 * root) paddr vaddr flags).mem (4096 * root) other =
      translate m.mem (4096 * root) other

/-- How many of the tables on the walk for `vaddr` are missing, from a level on. -/
def missingFrom (mem : Nat → Nat) (root vaddr level count : Nat) : Nat :=
  (List.range' level count).countP fun position => !(wordFor mem root vaddr position).testBit 0

def missingTables (mem : Nat → Nat) (root vaddr : Nat) : Nat := missingFrom mem root vaddr 0 3

/-- The part of `paging_map` that is left to do in a table at `level`. -/
def mapFrom (paddr vaddr flags : Nat) (m : PagingMem) (cur level : Nat) : (count : Nat) → PagingMem
  | 0 => (m.store (cur + 8 * pathIndex vaddr level) (pageOf paddr)).store (cur + 8 * pathIndex vaddr level)
      (leafEntry paddr flags)
  | count + 1 =>
      let next := nextPgDir m cur (pathIndex vaddr level) flags
      mapFrom paddr vaddr flags next.2 next.1 (level + 1) count

section

variable {m : PagingMem} {root frame paddr vaddr flags level count addr value cur ind : Nat}

theorem pagingMap_eq_mapFrom : pagingMap m cur paddr vaddr flags = mapFrom paddr vaddr flags m cur 0 3 := by
  unfold pagingMap
  simp only [vaddrToPgInd_eq, load_store_self]
  rfl

theorem missingFrom_present (present : (wordFor m.mem root vaddr level).testBit 0 = true) :
    missingFrom m.mem root vaddr level (count + 1) = missingFrom m.mem root vaddr (level + 1) count := by
  simp only [missingFrom, List.range'_succ, List.countP_cons, present, Bool.not_true, Bool.false_eq_true, if_false,
    Nat.add_zero]

theorem missingFrom_absent (absent : (wordFor m.mem root vaddr level).testBit 0 = false) :
    missingFrom m.mem root vaddr level (count + 1) = missingFrom m.mem root vaddr (level + 1) count + 1 := by
  simp only [missingFrom, List.range'_succ, List.countP_cons, absent, Bool.not_false, if_true]

theorem missingFrom_congr {after : PagingMem} (count : Nat)
    (same : ∀ position, level ≤ position → position < level + count →
      wordFor after.mem root vaddr position = wordFor m.mem root vaddr position) :
    missingFrom after.mem root vaddr level count = missingFrom m.mem root vaddr level count := by
  refine List.countP_congr fun position member => ?_
  have bounds := List.mem_range'_1.mp member
  rw [same position bounds.1 bounds.2]

/-- What is kept when a new table is linked at `level`. -/
structure TableLinked (m after : PagingMem) (root vaddr level child : Nat) : Prop where
  wellFormed : MapWellFormed after root
  owner : tableAt after.mem root (upperPath vaddr (level + 1)) = some child
  words : ∀ other position, level < position → position ≤ 3 →
    wordFor after.mem root other position = wordFor m.mem root other position
  tables : ∀ addr, InTables after root addr → InTables m root addr ∨ InPage (m.pmm m.taken) addr

theorem nextPgDir_tableLinked (wellFormed : MapWellFormed m root)
    (owner : tableAt m.mem root (upperPath vaddr level) = some frame) (bound : level < 3)
    (absent : (wordFor m.mem root vaddr level).testBit 0 = false) (page : NewPage m.pmm m.taken) (small : flags < 64) :
    ∃ child, m.pmm m.taken = 4096 * child ∧
      nextPgDir m (4096 * frame) (pathIndex vaddr level) flags =
        (4096 * child, linkedPage m frame (pathIndex vaddr level) child flags) ∧
      TableLinked m (linkedPage m frame (pathIndex vaddr level) child flags) root vaddr level child := by
  have room : (upperPath vaddr level).length < 3 := (upperPath_length level).symm ▸ bound
  rw [wordFor, wordAt_of_table owner] at absent
  obtain ⟨child, answer, call⟩ := nextPgDir_links page small absent
  have walks := linkFresh_walks (linkedPage m frame (pathIndex vaddr level) child flags) page wellFormed.toMapValid
    owner room small absent answer tablesOf_linkedPage
  obtain ⟨valid, reached, changed⟩ := linkFresh_spec (linkedPage m frame (pathIndex vaddr level) child flags) page
    wellFormed.toMapValid owner room small absent answer rfl rfl tablesOf_linkedPage
  have childNotNull : child ≠ 0 := fun zero => page.notNull (by rw [answer, zero]; rfl)
  refine ⟨child, answer, call, ⟨valid, wellFormed.physical, ?_⟩, ?_, ?_, ?_⟩
  · intro path table within there
    rw [walks path within] at there
    split at there
    · cases there
      exact childNotNull
    · exact wellFormed.notNull path table within there
  · rw [upperPath_succ]
    exact reached
  · intro other position below within
    rw [changed.onWalks (Nat.le_of_lt bound) other position within, if_neg fun here => Nat.ne_of_gt below here.1]
  · rintro addr ⟨path, table, within, there, inside⟩
    rw [walks path within] at there
    split at there
    · cases there
      rw [answer]
      exact Or.inr inside
    · exact Or.inl ⟨path, table, within, there, inside⟩

theorem store_load_of_ne (other : addr ≠ cur) : (m.store addr value).load cur = m.load cur :=
  Function.update_of_ne (Ne.symm other) _ _

theorem store_comm {word : Nat} (other : addr ≠ cur) :
    (m.store addr value).store cur word = (m.store cur word).store addr value := by
  simp only [PagingMem.store, PagingMem.mk.injEq, and_true]
  exact Function.update_comm other _ _ _

theorem store_fms64 {page : Nat} (value : Nat) (outside : ¬InPage page addr) :
    (m.store addr value).fms64 page 0 (pageSize / 8) = (m.fms64 page 0 (pageSize / 8)).store addr value := by
  simp only [PagingMem.fms64, PagingMem.store, PagingMem.mk.injEq, and_true]
  funext cell
  by_cases here : cell = addr
  · subst here
    have notCleared : ¬(page ≤ cell ∧ cell < page + 8 * (pageSize / 8)) := outside
    rw [Function.update_self, if_neg notCleared, Function.update_self]
  · rw [Function.update_of_ne here, Function.update_of_ne here]

/-- Clearing a page forgets what was stored in it. -/
theorem fms64_store {page : Nat} (value : Nat) (inside : InPage page addr) :
    (m.store addr value).fms64 page 0 (pageSize / 8) = m.fms64 page 0 (pageSize / 8) := by
  simp only [PagingMem.fms64, PagingMem.store, PagingMem.mk.injEq, and_true]
  funext cell
  by_cases here : cell = addr
  · subst here
    have cleared : page ≤ cell ∧ cell < page + 8 * (pageSize / 8) := inside
    rw [if_pos cleared, if_pos cleared]
  · rw [Function.update_of_ne here]

theorem not_inPage_table (outside : ¬InTables m root addr)
    (owner : tableAt m.mem root (upperPath vaddr level) = some frame) (bound : level ≤ 3) :
    ¬InPage (4096 * frame) addr :=
  fun inside => outside ⟨_, frame, by rw [upperPath_length]; exact bound, owner, inside⟩

theorem ne_of_not_inPage {index : Fin 512} (outside : ¬InPage (4096 * frame) addr) :
    addr ≠ 4096 * frame + 8 * index := by
  intro here
  have inTable := index.isLt
  exact outside ⟨by omega, by omega⟩

theorem nextPgDir_store (value flags : Nat) (other : addr ≠ cur + 8 * ind)
    (outside : (m.load (cur + 8 * ind)).testBit 0 = false → ¬InPage (m.pmm m.taken) addr) :
    nextPgDir (m.store addr value) cur ind flags =
      ((nextPgDir m cur ind flags).1, (nextPgDir m cur ind flags).2.store addr value) := by
  have read : (m.store addr value).load (cur + 8 * ind) = m.load (cur + 8 * ind) := store_load_of_ne other
  cases present : (m.load (cur + 8 * ind)).testBit 0 with
  | true => rw [nextPgDir_present (m := m.store addr value) (read ▸ present), nextPgDir_present present, read]
  | false =>
      have cleared := store_fms64 (m := m.alloc.2) value (outside present)
      rw [nextPgDir_absent (m := m.store addr value) (read ▸ present), nextPgDir_absent present]
      refine Prod.ext rfl ?_
      dsimp only
      rw [← store_comm other, ← store_comm other, ← cleared]
      rfl

/-- A table that is there is followed, whatever is stored outside the word that links it. -/
theorem nextPgDir_followed (flags : Nat) (wellFormed : MapWellFormed m root)
    (owner : tableAt m.mem root (upperPath vaddr level) = some frame) (bound : level < 3)
    (present : (wordFor m.mem root vaddr level).testBit 0 = true) :
    ∃ child, nextPgDir m (4096 * frame) (pathIndex vaddr level) flags = (4096 * child, m) ∧
      tableAt m.mem root (upperPath vaddr (level + 1)) = some child ∧
      ∀ addr value, addr ≠ 4096 * frame + 8 * pathIndex vaddr level →
        nextPgDir (m.store addr value) (4096 * frame) (pathIndex vaddr level) flags =
          (4096 * child, m.store addr value) := by
  obtain ⟨child, call, below⟩ := nextPgDir_linked flags wellFormed.toMapValid owner
    (by rw [upperPath_length]; exact bound) present
  rw [← upperPath_succ] at below
  refine ⟨child, call, below, fun addr value other => ?_⟩
  rw [wordFor, wordAt_of_table owner] at present
  have stored := nextPgDir_store value flags other fun absent => absurd (present.symm.trans absent) (by decide)
  rwa [call] at stored

theorem nextPgDir_pmm (m : PagingMem) (cur ind flags : Nat) : (nextPgDir m cur ind flags).2.pmm = m.pmm := by
  unfold nextPgDir
  split <;> rfl

/-- Nothing but the clearing of a new page takes away a present bit. -/
theorem nextPgDir_keepsPresent (outside : ¬InPage (m.pmm m.taken) addr) (present : (m.mem addr).testBit 0 = true) :
    ((nextPgDir m cur ind flags).2.mem addr).testBit 0 = true := by
  cases linked : (m.load (cur + 8 * ind)).testBit 0 with
  | true =>
      rw [nextPgDir_present linked]
      exact present
  | false =>
      rw [nextPgDir_absent linked]
      by_cases here : addr = cur + 8 * ind
      · rw [here]
        exact (congrArg (Nat.testBit · 0) (Function.update_self _ _ _)).trans linkWord_present
      · have notCleared : ¬(m.pmm m.taken ≤ addr ∧ addr < m.pmm m.taken + 8 * (pageSize / 8)) := outside
        have same : ((m.alloc.2.fms64 (m.pmm m.taken) 0 (pageSize / 8)).mem addr).testBit 0 = true := by
          refine (congrArg (Nat.testBit · 0) (if_neg notCleared)).trans present
        simp only [PagingMem.store, Function.update_of_ne here]
        exact same

theorem nextPgDir_linksPresent (m : PagingMem) (cur ind flags : Nat) :
    ((nextPgDir m cur ind flags).2.mem (cur + 8 * ind)).testBit 0 = true := by
  cases linked : (m.load (cur + 8 * ind)).testBit 0 with
  | true =>
      rw [nextPgDir_present linked]
      exact linked
  | false =>
      rw [nextPgDir_absent linked]
      exact (congrArg (Nat.testBit · 0) (Function.update_self _ _ _)).trans linkWord_present

/-- Every answer that the walk needs is a page, and no flag gets into a table pointer. -/
def Supplied (m : PagingMem) (flags missing : Nat) : Prop :=
  ∀ call < missing, flags < 64 ∧ NewPage m.pmm (m.taken + call)

theorem Supplied.first {missing : Nat} (supplied : Supplied m flags (missing + 1)) :
    flags < 64 ∧ NewPage m.pmm m.taken :=
  supplied 0 (Nat.succ_pos _)

theorem Supplied.rest {missing : Nat} {after : PagingMem} (supplied : Supplied m flags (missing + 1))
    (pmm : after.pmm = m.pmm) (taken : after.taken = m.taken + 1) : Supplied after flags missing := by
  intro call bound
  have later := supplied (call + 1) (Nat.succ_lt_succ bound)
  rw [pmm, taken, Nat.add_right_comm]
  exact later

/-- What `paging_map` does where the walk is supplied: it consumes one page for each missing
table, its last store is in a table, and it keeps the other words of the last level. -/
structure MapDone (m after : PagingMem) (root vaddr missing : Nat) : Prop where
  taken : after.taken = m.taken + missing
  others : ∀ other, virtualPage other ≠ virtualPage vaddr → wordFor after.mem root other 3 = wordFor m.mem root other 3

theorem mapFrom_done (wellFormed : MapWellFormed m root)
    (owner : tableAt m.mem root (upperPath vaddr level) = some frame)
    (bound : level + count = 3) (supplied : Supplied m flags (missingFrom m.mem root vaddr level count)) :
    MapDone m (mapFrom paddr vaddr flags m (4096 * frame) level count) root vaddr
      (missingFrom m.mem root vaddr level count) := by
  induction count generalizing m frame level with
  | zero =>
      have last : level = 3 := bound
      subst last
      obtain ⟨_, changed⟩ := storeLeaf_spec wellFormed.toMapValid owner (upperPath_length 3)
        (mapFrom paddr vaddr flags m (4096 * frame) 3 0) rfl rfl (tablesOf_store_twice _ _)
      refine ⟨rfl, fun other different => ?_⟩
      rw [changed.onWalks (Nat.le_refl 3) other 3 (Nat.le_refl 3), if_neg fun here => different here.2]
  | succ count ih =>
      cases present : (wordFor m.mem root vaddr level).testBit 0 with
      | true =>
          rw [missingFrom_present present] at supplied ⊢
          obtain ⟨child, call, below, _⟩ := nextPgDir_followed flags wellFormed owner (by omega) present
          simp only [mapFrom, call]
          exact ih wellFormed below (by omega) supplied
      | false =>
          rw [missingFrom_absent present] at supplied ⊢
          obtain ⟨small, page⟩ := supplied.first
          obtain ⟨child, answer, call, linked⟩ := nextPgDir_tableLinked wellFormed owner (by omega) present page small
          have same := missingFrom_congr count fun position lower upper =>
            linked.words vaddr position lower (by omega)
          simp only [mapFrom, call]
          have done := ih linked.wellFormed linked.owner (by omega) (same ▸ supplied.rest rfl rfl)
          refine ⟨?_, fun other different =>
            (done.others other different).trans (linked.words other 3 (by omega) (by omega))⟩
          rw [done.taken, same]
          exact Nat.add_right_comm _ _ _

theorem mapFrom_store (wellFormed : MapWellFormed m root)
    (owner : tableAt m.mem root (upperPath vaddr level) = some frame)
    (bound : level + count = 3) (supplied : Supplied m flags (missingFrom m.mem root vaddr level count))
    (outside : ¬InTables m root addr)
    (apart : ∀ call < missingFrom m.mem root vaddr level count, ¬InPage (m.pmm (m.taken + call)) addr) :
    mapFrom paddr vaddr flags (m.store addr value) (4096 * frame) level count =
      (mapFrom paddr vaddr flags m (4096 * frame) level count).store addr value := by
  have notHere : ∀ index : Fin 512, addr ≠ 4096 * frame + 8 * index :=
    fun _ => ne_of_not_inPage (not_inPage_table outside owner (by omega))
  induction count generalizing m frame level with
  | zero => rw [mapFrom, store_comm (notHere _), store_comm (notHere _), mapFrom]
  | succ count ih =>
      cases present : (wordFor m.mem root vaddr level).testBit 0 with
      | true =>
          rw [missingFrom_present present] at supplied apart
          obtain ⟨child, call, below, stored⟩ := nextPgDir_followed flags wellFormed owner (by omega) present
          simp only [mapFrom, stored _ value (notHere _), call]
          exact ih wellFormed below (by omega) supplied outside apart
            fun _ => ne_of_not_inPage (not_inPage_table outside below (by omega))
      | false =>
          rw [missingFrom_absent present] at supplied apart
          obtain ⟨small, page⟩ := supplied.first
          obtain ⟨child, answer, call, linked⟩ := nextPgDir_tableLinked wellFormed owner (by omega) present page small
          have same := missingFrom_congr count fun position lower upper =>
            linked.words vaddr position lower (by omega)
          have notNew : ¬InPage (m.pmm m.taken) addr := apart 0 (Nat.succ_pos _)
          have stored := nextPgDir_store value flags (notHere (pathIndex vaddr level))
            fun _ => notNew
          have stillOutside : ¬InTables (linkedPage m frame (pathIndex vaddr level) child flags) root addr :=
            fun inside => (linked.tables addr inside).elim outside notNew
          rw [call] at stored
          simp only [mapFrom, stored, call]
          refine ih linked.wellFormed linked.owner (by omega) (same ▸ supplied.rest rfl rfl) stillOutside ?_
            fun _ => ne_of_not_inPage (not_inPage_table stillOutside linked.owner (by omega))
          intro later below
          rw [same] at below
          have next := apart (later + 1) (Nat.succ_lt_succ below)
          rw [← Nat.add_assoc, Nat.add_right_comm] at next
          exact next

/-- If page 0 is cleared for a table, what was there is lost. -/
theorem nextPgDir_null (value flags : Nat) (other : 0 ≠ cur + 8 * ind)
    (absent : (m.load (cur + 8 * ind)).testBit 0 = false)
    (null : m.pmm m.taken = physAddrNull) : nextPgDir (m.store 0 value) cur ind flags = nextPgDir m cur ind flags := by
  have read : (m.store 0 value).load (cur + 8 * ind) = m.load (cur + 8 * ind) := store_load_of_ne other
  have inside : InPage (m.pmm m.taken) 0 := null ▸ ⟨Nat.le_refl 0, by decide⟩
  have cleared := fms64_store (m := m.alloc.2) value inside
  rw [nextPgDir_absent (m := m.store 0 value) (read ▸ absent), nextPgDir_absent absent]
  refine Prod.ext rfl ?_
  dsimp only
  rw [← cleared]
  rfl

theorem MapWellFormed.null_outside (wellFormed : MapWellFormed m root) : ¬InTables m root 0 := by
  rintro ⟨path, frame, within, there, inside⟩
  have notNull := wellFormed.notNull path frame within there
  have first := inside.1
  omega

theorem mapFrom_null (wellFormed : MapWellFormed m root)
    (owner : tableAt m.mem root (upperPath vaddr level) = some frame)
    (bound : level + count = 3) (small : flags < 64 ∨ m.pmm m.taken = physAddrNull)
    (answers : ∀ call < missingFrom m.mem root vaddr level count,
      m.pmm (m.taken + call) = physAddrNull ∨ NewPage m.pmm (m.taken + call))
    (failed : ∃ call < missingFrom m.mem root vaddr level count, m.pmm (m.taken + call) = physAddrNull) (value : Nat) :
    mapFrom paddr vaddr flags (m.store 0 value) (4096 * frame) level count =
      mapFrom paddr vaddr flags m (4096 * frame) level count := by
  induction count generalizing m frame level with
  | zero =>
      obtain ⟨call, below, _⟩ := failed
      exact absurd below (Nat.not_lt_zero call)
  | succ count ih =>
      have notHere : ∀ index : Fin 512, 0 ≠ 4096 * frame + 8 * index :=
        fun _ => ne_of_not_inPage (not_inPage_table wellFormed.null_outside owner (by omega))
      cases present : (wordFor m.mem root vaddr level).testBit 0 with
      | true =>
          rw [missingFrom_present present] at answers failed
          obtain ⟨child, call, below, stored⟩ := nextPgDir_followed flags wellFormed owner (by omega) present
          simp only [mapFrom, stored _ value (notHere _), call]
          exact ih wellFormed below (by omega) small answers failed
      | false =>
          rw [missingFrom_absent present] at answers failed
          have absent := present
          rw [wordFor, wordAt_of_table owner] at absent
          rcases answers 0 (Nat.succ_pos _) with null | page
          · simp only [mapFrom, nextPgDir_null value flags (notHere _) absent null]
          · -- the first answer is a page, so that a later one is null
            obtain ⟨child, answer, call, linked⟩ := nextPgDir_tableLinked wellFormed owner (by omega) present page
              (small.resolve_right page.notNull)
            have same := missingFrom_congr count fun position lower upper =>
              linked.words vaddr position lower (by omega)
            have notNew : ¬InPage (m.pmm m.taken) 0 := fun inside => page.notNull (Nat.le_zero.mp inside.1)
            have stored := nextPgDir_store value flags (notHere (pathIndex vaddr level))
              fun _ => notNew
            rw [call] at stored
            simp only [mapFrom, stored, call]
            refine ih linked.wellFormed linked.owner (by omega) (Or.inl (small.resolve_right page.notNull)) ?_ ?_
            · intro later below
              have next := answers (later + 1) (Nat.succ_lt_succ (same ▸ below))
              rw [← Nat.add_assoc, Nat.add_right_comm] at next
              exact next
            · obtain ⟨later, below, null⟩ := failed
              cases later with
              | zero => exact absurd null page.notNull
              | succ later =>
                  rw [← Nat.add_assoc, Nat.add_right_comm] at null
                  exact ⟨later, same ▸ Nat.lt_of_succ_lt_succ below, null⟩

theorem mapFrom_keepsPresent (outside : ∀ call, m.taken ≤ call → call < m.taken + count → ¬InPage (m.pmm call) addr)
    (present : (m.mem addr).testBit 0 = true) :
    ((mapFrom paddr vaddr flags m cur level count).mem addr).testBit 0 = true := by
  induction count generalizing m cur level with
  | zero =>
      by_cases here : addr = cur + 8 * pathIndex vaddr level
      · rw [here]
        exact (congrArg (Nat.testBit · 0) (Function.update_self _ _ _)).trans linkWord_present
      · simp only [mapFrom, PagingMem.store, Function.update_of_ne here]
        exact present
  | succ count ih =>
      have consumed := nextPgDir_taken m cur (pathIndex vaddr level) flags
      refine ih ?_ (nextPgDir_keepsPresent (outside _ (Nat.le_refl _) (by omega)) present)
      intro call lower upper
      rw [nextPgDir_pmm]
      exact outside call (by omega) (by omega)

theorem mapFrom_linksPresent (outside : ∀ call, m.taken ≤ call → call < m.taken + count →
      ¬InPage (m.pmm call) (cur + 8 * pathIndex vaddr level)) :
    ((mapFrom paddr vaddr flags m cur level count).mem (cur + 8 * pathIndex vaddr level)).testBit 0 = true := by
  cases count with
  | zero => exact (congrArg (Nat.testBit · 0) (Function.update_self _ _ _)).trans linkWord_present
  | succ count =>
      have consumed := nextPgDir_taken m cur (pathIndex vaddr level) flags
      rw [mapFrom]
      refine mapFrom_keepsPresent ?_ (nextPgDir_linksPresent m cur (pathIndex vaddr level) flags)
      intro call lower upper
      rw [nextPgDir_pmm]
      exact outside call (by omega) (by omega)

theorem MapWellFormed.frame_lt (wellFormed : MapWellFormed m root) {path : List (Fin 512)}
    (owner : tableAt m.mem root path = some frame) : frame < 2 ^ 40 :=
  tableAt_lt wellFormed.physical owner

/-- If the pointer to the first new table leaves physical memory, so do the writes to it. -/
theorem mapFrom_strays (wellFormed : MapWellFormed m root)
    (owner : tableAt m.mem root (upperPath vaddr level) = some frame)
    (bound : level + count = 3) (missing : 0 < missingFrom m.mem root vaddr level count)
    (strays : 2 ^ 63 ≤ maskLow 12 (m.pmm m.taken ||| (pfP ||| flags)))
    (physical : ∀ call, m.taken ≤ call → call < m.taken + count → m.pmm call < 2 ^ 52) :
    ∃ addr, 2 ^ 63 ≤ addr ∧ ∀ value,
      ((mapFrom paddr vaddr flags (m.store addr value) (4096 * frame) level count).mem addr).testBit 0 = true := by
  induction count generalizing m frame level with
  | zero => exact absurd missing (Nat.lt_irrefl 0)
  | succ count ih =>
      have frameBound := wellFormed.frame_lt owner
      have notHere : ∀ {addr : Nat} (index : Fin 512), 2 ^ 63 ≤ addr → addr ≠ 4096 * frame + 8 * index := by
        intro addr index far
        have inTable := index.isLt
        omega
      cases present : (wordFor m.mem root vaddr level).testBit 0 with
      | true =>
          rw [missingFrom_present present] at missing
          obtain ⟨child, call, below, stored⟩ := nextPgDir_followed flags wellFormed owner (by omega) present
          obtain ⟨addr, far, always⟩ := ih wellFormed below (by omega) missing strays
            fun call lower upper => physical call lower (by omega)
          refine ⟨addr, far, fun value => ?_⟩
          simp only [mapFrom, stored addr value (notHere _ far)]
          exact always value
      | false =>
          rw [wordFor, wordAt_of_table owner] at present
          have pointer : (nextPgDir m (4096 * frame) (pathIndex vaddr level) flags).1 =
              maskLow 12 (m.pmm m.taken ||| (pfP ||| flags)) :=
            congrArg Prod.fst (nextPgDir_absent present)
          have far : 2 ^ 63 ≤
              maskLow 12 (m.pmm m.taken ||| (pfP ||| flags)) + 8 * (pathIndex vaddr (level + 1) : Nat) :=
            Nat.le_trans strays (Nat.le_add_right _ _)
          refine ⟨_, far, fun value => ?_⟩
          have apart : ∀ call, m.taken ≤ call → call < m.taken + (count + 1) → ¬InPage (m.pmm call)
              (maskLow 12 (m.pmm m.taken ||| (pfP ||| flags)) + 8 * (pathIndex vaddr (level + 1) : Nat)) := by
            intro call lower upper inside
            have page := physical call lower upper
            have above := inside.2
            omega
          have stored := nextPgDir_store value flags (notHere (pathIndex vaddr level) far)
            fun _ => apart _ (Nat.le_refl _) (by omega)
          have consumed := nextPgDir_taken m (4096 * frame) (pathIndex vaddr level) flags
          simp only [mapFrom, stored, pointer]
          refine mapFrom_linksPresent fun call lower upper => ?_
          have lower' : (nextPgDir m (4096 * frame) (pathIndex vaddr level) flags).2.taken ≤ call := lower
          have upper' : call < (nextPgDir m (4096 * frame) (pathIndex vaddr level) flags).2.taken + count := upper
          have same : ((nextPgDir m (4096 * frame) (pathIndex vaddr level) flags).2.store
              (maskLow 12 (m.pmm m.taken ||| (pfP ||| flags)) + 8 * (pathIndex vaddr (level + 1) : Nat))
                value).pmm = m.pmm :=
            nextPgDir_pmm m _ _ _
          rw [same]
          exact apart call (by omega) (by omega)

theorem declared_small (declared : flags &&& (PagingCall.lowFlags ||| pfXd) = flags)
    (executable : flags &&& pfXd = 0) :
    flags < 64 := by
  rw [Nat.and_or_distrib_left, executable, Nat.or_zero] at declared
  rw [← declared]
  exact Nat.lt_of_le_of_lt Nat.and_le_right (by decide)

theorem declared_strays {page : Nat} (declared : flags &&& (PagingCall.lowFlags ||| pfXd) = flags)
    (noExec : flags &&& pfXd ≠ 0) (physical : page < 2 ^ 52) : 2 ^ 63 ≤ maskLow 12 (page ||| (pfP ||| flags)) := by
  have bound : flags < 2 ^ 64 := declared ▸ Nat.lt_of_le_of_lt Nat.and_le_right (by decide)
  have word : page ||| (pfP ||| flags) < 2 ^ 64 :=
    Nat.or_lt_two_pow (by omega) (Nat.or_lt_two_pow (by decide) bound)
  have high : flags.testBit 63 = true := by
    by_contra clear
    refine noExec (Nat.eq_of_testBit_eq fun index => ?_)
    rw [Nat.testBit_and, Nat.zero_testBit, show pfXd = 2 ^ 63 by rfl, Nat.testBit_two_pow]
    by_cases here : 63 = index
    · rw [← here, eq_false_of_ne_true clear, Bool.false_and]
    · rw [decide_eq_false here, Bool.and_false]
  have large : 2 ^ 63 ≤ page ||| (pfP ||| flags) :=
    Nat.ge_two_pow_of_testBit (by rw [Nat.testBit_or, Nat.testBit_or, high, Bool.or_true, Bool.or_true])
  rw [maskLow_eq (by decide) word]
  omega

theorem missingFrom_le (mem : Nat → Nat) (root vaddr level count : Nat) :
    missingFrom mem root vaddr level count ≤ count := by
  have bound := List.countP_le_length (p := fun position => !(wordFor mem root vaddr position).testBit 0)
    (l := List.range' level count)
  rwa [List.length_range'] at bound

/-- In a contained call, page 0 has not been taken for a table. -/
theorem MapContained.keepsNull (contained : MapContained m root paddr vaddr flags) (wellFormed : MapWellFormed m root)
    (forgets : ∀ value, mapFrom paddr vaddr flags (m.store 0 value) (4096 * root) 0 3 =
      mapFrom paddr vaddr flags m (4096 * root) 0 3) : False := by
  have kept : ∀ value, (mapFrom paddr vaddr flags (m.store 0 value) (4096 * root) 0 3).mem 0 = value := by
    intro value
    have outside := contained.outside 0 value wellFormed.null_outside
      fun call _ _ present inside => present (Nat.le_zero.mp inside.1)
    rwa [pagingMap_eq_mapFrom] at outside
  have zero := kept 0
  have one := kept 1
  rw [forgets] at zero one
  exact absurd (zero.symm.trans one) (by decide)

theorem MapContained.keepsAbove (contained : MapContained m root paddr vaddr flags) (wellFormed : MapWellFormed m root)
    (physical : ∀ call, m.taken ≤ call → call < m.taken + 3 → m.pmm call < 2 ^ 52) (far : 2 ^ 63 ≤ addr) :
    (mapFrom paddr vaddr flags (m.store addr 0) (4096 * root) 0 3).mem addr = 0 := by
  have notIn : ¬InTables m root addr := by
    rintro ⟨path, frame, _, there, inside⟩
    have bound := wellFormed.frame_lt there
    have above := inside.2
    omega
  have kept := contained.outside addr 0 notIn fun call lower upper _ inside => by
    have bound := physical call lower (Nat.lt_of_lt_of_le upper (pagingMap_taken m _ _ _ _).2)
    have above := inside.2
    omega
  rwa [pagingMap_eq_mapFrom] at kept

theorem mapContained_of_supplied (wellFormed : MapWellFormed m root)
    (supplied : Supplied m flags (missingTables m.mem root vaddr)) : MapContained m root paddr vaddr flags := by
  have start : tableAt m.mem root (upperPath vaddr 0) = some root := rfl
  have done : MapDone m (mapFrom paddr vaddr flags m (4096 * root) 0 3) root vaddr (missingTables m.mem root vaddr) :=
    mapFrom_done wellFormed start rfl supplied
  refine ⟨?_, ?_⟩
  · intro addr value notIn notNew
    rw [pagingMap_eq_mapFrom] at notNew ⊢
    rw [mapFrom_store wellFormed start rfl supplied notIn fun call below => notNew _ (Nat.le_add_right _ _)
      (by rw [done.taken]; exact Nat.add_lt_add_left below _) (supplied call below).2.notNull]
    exact Function.update_self _ _ _
  · intro other different
    rw [pagingMap_eq_mapFrom, translate_eq, translate_eq, done.others other different]

/-- Whatever `pmm_alloc` answers, `paging_map` keeps to the tables and to the pages it was
given exactly when, for every missing table, there is a page and no flag in bit 63. -/
theorem pagingMap_contained_iff (m : PagingMem) (root paddr vaddr flags : Nat) (wellFormed : MapWellFormed m root)
    (declared : flags &&& (PagingCall.lowFlags ||| pfXd) = flags)
    (answers : ∀ call < 3, m.pmm (m.taken + call) = physAddrNull ∨ NewPage m.pmm (m.taken + call)) :
    MapContained m root paddr vaddr flags ↔
      ∀ call < missingTables m.mem root vaddr, flags &&& pfXd = 0 ∧ m.pmm (m.taken + call) ≠ physAddrNull := by
  have start : tableAt m.mem root (upperPath vaddr 0) = some root := rfl
  have few : missingTables m.mem root vaddr ≤ 3 := missingFrom_le _ _ _ _ _
  have available := fun call (below : call < missingTables m.mem root vaddr) =>
    answers call (Nat.lt_of_lt_of_le below few)
  constructor
  · intro contained
    by_contra violated
    push Not at violated
    obtain ⟨call, below, executable⟩ := violated
    by_cases xd : flags &&& pfXd = 0
    · exact contained.keepsNull wellFormed (mapFrom_null wellFormed start rfl
        (Or.inl (declared_small declared xd)) available ⟨call, below, executable xd⟩)
    · rcases answers 0 (by decide) with null | page
      · exact contained.keepsNull wellFormed (mapFrom_null wellFormed start rfl (Or.inr null) available
          ⟨0, Nat.zero_lt_of_lt below, null⟩)
      · have physical : ∀ call, m.taken ≤ call → call < m.taken + 3 → m.pmm call < 2 ^ 52 := by
          intro call lower upper
          have answer := answers (call - m.taken) (by omega)
          rw [Nat.add_sub_cancel' lower] at answer
          rcases answer with null | page
          · rw [null]
            decide
          · exact page.physical
        obtain ⟨addr, far, always⟩ := mapFrom_strays wellFormed start rfl (Nat.zero_lt_of_lt below)
          (declared_strays declared xd page.physical) physical
        have set := always 0
        rw [contained.keepsAbove wellFormed physical far] at set
        exact absurd set (by decide)
  · intro usable
    refine mapContained_of_supplied wellFormed fun call below => ?_
    obtain ⟨executable, present⟩ := usable call below
    exact ⟨declared_small declared executable, (available call below).resolve_left present⟩

end

/-- Memory after the root of a map has been allocated and cleared, at page 1. -/
def emptyMap (pmm : Nat → Nat) : PagingMem :=
  (PagingMem.alloc ⟨fun _ => 7, pmm, 0⟩).2.fms64 (4096 * 1) 0 (pageSize / 8)

theorem emptyMap_wellFormed {pmm : Nat → Nat} (answer : pmm 0 = 4096) : MapWellFormed (emptyMap pmm) 1 := by
  obtain ⟨valid, _⟩ : MapValid (emptyMap pmm) 1 ∧ ∀ path index, wordAt (emptyMap pmm).mem 1 path index = 0 :=
    clearedRoot_valid (m := ⟨fun _ => 7, pmm, 0⟩) answer
  refine ⟨valid, by decide, fun path frame within there zero => ?_⟩
  obtain ⟨call, earlier, same⟩ := valid.supplied path frame within there
  have first : call = 0 := Nat.lt_one_iff.mp earlier
  rw [first, zero] at same
  exact absurd (answer.symm.trans same) (by decide)

theorem pagingMap_contained_iff_risingPages : MapContained (emptyMap risingPages) 1 0x5000 0x200000 pfRw := by
  have supply : FreshPages risingPages 4 := risingPages_fresh (by decide)
  have page : ∀ call < 3, NewPage risingPages (1 + call) := fun call bound => supply.newPage (by omega)
  exact (pagingMap_contained_iff (emptyMap risingPages) 1 0x5000 0x200000 pfRw (emptyMap_wellFormed rfl) (by decide)
    fun call bound => Or.inr (page call bound)).mpr
    fun call below => ⟨by decide, (page call (Nat.lt_of_lt_of_le below (missingFrom_le _ _ _ _ _))).notNull⟩

/-- Memory runs out after the root of the map. -/
def scarcePages (call : Nat) : Nat := if call = 0 then 4096 else 0

/-- A word of page 0 that holds 7 is cleared, although it is in no table and no new page. -/
theorem pagingMap_clears_null :
    MapWellFormed (emptyMap scarcePages) 1 ∧
      (∀ call < 3, scarcePages ((emptyMap scarcePages).taken + call) = physAddrNull) ∧
      (emptyMap scarcePages).mem 0x800 = 7 ∧
      (pagingMap (emptyMap scarcePages) 4096 0x5000 0x200000 pfRw).mem 0x800 = 0 ∧
      ¬MapContained (emptyMap scarcePages) 1 0x5000 0x200000 pfRw := by
  have wellFormed : MapWellFormed (emptyMap scarcePages) 1 := emptyMap_wellFormed rfl
  refine ⟨wellFormed, by decide, by decide, by decide, fun contained => ?_⟩
  have kept := contained.outside 0x800 7 ?_ ?_
  · exact absurd kept (by decide)
  · rintro ⟨path, frame, within, there, inside⟩
    have notNull := wellFormed.notNull path frame within there
    have above := inside.1
    omega
  · intro call later _ present
    have taken : (emptyMap scarcePages).taken = 1 := rfl
    refine absurd ?_ present
    exact if_neg (by omega)

end Bwuhos
