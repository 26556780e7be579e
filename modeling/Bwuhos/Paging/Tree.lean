import Bwuhos.Paging.Walk

namespace Bwuhos

open Bwuhos.Data

/-! # The tables of a page map form a tree

Every step of `paging_map` and `paging_unmap` is described by the one word it changes.
-/

/-- The first `calls` answers of `pmm_alloc` are page frames, and each is a new one. -/
structure FreshPages (pmm : Nat → Nat) (calls : Nat) : Prop where
  aligned : ∀ call < calls, pmm call % 4096 = 0
  physical : ∀ call < calls, pmm call < 2 ^ 52
  notNull : ∀ call < calls, pmm call ≠ physAddrNull
  distinct : ∀ call < calls, ∀ other < calls, pmm call = pmm other → call = other

theorem FreshPages.mono {pmm : Nat → Nat} {fewer calls : Nat} (supply : FreshPages pmm calls)
    (bound : fewer ≤ calls) : FreshPages pmm fewer where
  aligned := fun call earlier => supply.aligned call (by omega)
  physical := fun call earlier => supply.physical call (by omega)
  notNull := fun call earlier => supply.notNull call (by omega)
  distinct := fun call earlier other before => supply.distinct call (by omega) other (by omega)

/-- Answer number `call` of `pmm_alloc` is a page frame, and none that it answered with before. -/
structure NewPage (pmm : Nat → Nat) (call : Nat) : Prop where
  aligned : pmm call % 4096 = 0
  physical : pmm call < 2 ^ 52
  notNull : pmm call ≠ physAddrNull
  fresh : ∀ earlier < call, pmm earlier ≠ pmm call

theorem FreshPages.newPage {pmm : Nat → Nat} {call calls : Nat} (supply : FreshPages pmm calls)
    (bound : call < calls) :
    NewPage pmm call where
  aligned := supply.aligned call bound
  physical := supply.physical call bound
  notNull := supply.notNull call bound
  fresh := fun earlier before same =>
    absurd (supply.distinct earlier (by omega) call bound same) (Nat.ne_of_lt before)

/-- The tables are distinct pages that `pmm_alloc` supplied, and the entries that link
them use no bit above the address. -/
structure MapValid (m : PagingMem) (root : Nat) : Prop where
  separated : RadixTree.Separated entryLink (tablesOf m.mem) root 3
  supplied : ∀ path frame, path.length ≤ 3 → tableAt m.mem root path = some frame →
    ∃ call < m.taken, m.pmm call = 4096 * frame
  clean : ∀ path index, path.length < 3 → wordAt m.mem root path index < 2 ^ 52

section Words

variable {entry frame flags : Nat}

theorem present_iff : entry &&& pfP = 0 ↔ entry.testBit 0 = false := by
  rw [show pfP = 1 from rfl, Nat.and_one_is_mod, Nat.testBit_zero, decide_eq_false_iff_not]
  omega

theorem entryLink_of_present (present : entry.testBit 0 = true) :
    entryLink entry = some (entry / 2 ^ 12 % 2 ^ 40) := if_pos present

theorem entryLink_of_absent (absent : entry.testBit 0 = false) : entryLink entry = none := by
  rw [entryLink, absent]
  rfl

@[simp] theorem entryLink_zero : entryLink 0 = none := rfl

theorem maskLow_entry (clean : entry < 2 ^ 52) : maskLow 12 entry = 4096 * (entry / 2 ^ 12 % 2 ^ 40) := by
  rw [maskLow_eq (by decide) (by omega)]
  omega

theorem entryAddr_eq : entryAddr entry = 4096 * (entry / 2 ^ 12 % 2 ^ 40) := Nat.mul_comm _ _

theorem flags_lt (small : flags < 64) : pfP ||| flags < 64 := Nat.or_lt_two_pow (n := 6) (by decide) small

theorem linkWord_eq (small : flags < 64) :
    4096 * frame ||| (pfP ||| flags) = 4096 * frame + (pfP ||| flags) := by
  have := flags_lt small
  exact aligned_lor 12 (by omega) (by omega)

theorem linkWord_present {page : Nat} : (page ||| (pfP ||| flags)).testBit 0 = true := by
  have present : pfP.testBit 0 = true := by decide
  rw [Nat.testBit_or, Nat.testBit_or, present, Bool.true_or, Bool.or_true]

theorem linkWord_writable : (4096 * frame ||| (pfP ||| flags)).testBit 1 = flags.testBit 1 := by
  have aligned : (4096 * frame).testBit 1 = false := by
    rw [show 4096 * frame = 2 ^ 12 * frame by rfl, Nat.testBit_two_pow_mul]
    rfl
  have unset : pfP.testBit 1 = false := by decide
  rw [Nat.testBit_or, Nat.testBit_or, aligned, unset, Bool.false_or, Bool.false_or]

theorem linkWord_link (physical : frame < 2 ^ 40) (small : flags < 64) :
    entryLink (4096 * frame ||| (pfP ||| flags)) = some frame := by
  have := flags_lt small
  rw [entryLink_of_present linkWord_present, linkWord_eq small]
  congr 1
  omega

end Words

section Memory

variable {m : PagingMem} {frame : Nat} {index : Fin 512}

theorem tablesOf_store (value : Nat) :
    tablesOf (m.store (4096 * frame + 8 * index) value).mem = RadixTree.store (tablesOf m.mem) frame index value := by
  funext other position
  have inPage := index.isLt
  have otherInPage := position.isLt
  by_cases same : other = frame ∧ position = index
  · obtain ⟨rfl, rfl⟩ := same
    rw [RadixTree.store_self]
    exact Function.update_self _ _ _
  · have apart : 4096 * other + 8 * (position : Nat) ≠ 4096 * frame + 8 * (index : Nat) := by
      intro equal
      exact same ⟨by omega, Fin.ext (by omega)⟩
    rw [RadixTree.store_of_ne (by rw [ne_eq, ne_eq, ← not_and_or]; exact same)]
    exact Function.update_of_ne apart _ _

theorem tablesOf_fms64 : tablesOf (m.fms64 (4096 * frame) 0 (pageSize / 8)).mem =
    Function.update (tablesOf m.mem) frame fun _ => 0 := by
  funext other position
  have inPage := position.isLt
  have words : pageSize / 8 = 512 := rfl
  by_cases same : other = frame
  · subst same
    rw [Function.update_self]
    exact if_pos ⟨by omega, by omega⟩
  · rw [Function.update_of_ne same]
    refine if_neg fun inside => same ?_
    omega

theorem tablesOf_store_twice (first second : Nat) :
    tablesOf ((m.store (4096 * frame + 8 * index) first).store (4096 * frame + 8 * index) second).mem =
      RadixTree.store (tablesOf m.mem) frame index second := by
  rw [← tablesOf_store second]
  simp only [PagingMem.store, Function.update_idem]

@[simp] theorem load_store_self (addr value : Nat) : (m.store addr value).load addr = value :=
  Function.update_self _ _ _

end Memory

section Level

variable {m : PagingMem} {root frame flags : Nat} {path : List (Fin 512)} {index : Fin 512}

@[simp] theorem tableAt_nil {mem : Nat → Nat} : tableAt mem root [] = some root := rfl

theorem tableAt_snoc {mem : Nat → Nat} : tableAt mem root (path ++ [index]) =
    match tableAt mem root path with
    | none => none
    | some frame => entryLink (tablesOf mem frame index) := by
  simp only [tableAt, RadixTree.walk_snoc]
  cases RadixTree.walk entryLink (tablesOf mem) root path <;> rfl

theorem tableAt_lt {mem : Nat → Nat} (physical : root < 2 ^ 40) (owner : tableAt mem root path = some frame) :
    frame < 2 ^ 40 := by
  cases path using List.reverseRecOn with
  | nil =>
      obtain rfl := Option.some.inj owner
      exact physical
  | append_singleton rest last =>
      rw [tableAt_snoc] at owner
      split at owner
      · cases owner
      · rw [entryLink] at owner
        split at owner
        · obtain rfl := Option.some.inj owner
          exact Nat.mod_lt _ (by decide)
        · cases owner

theorem wordAt_of_table {mem : Nat → Nat} (owner : tableAt mem root path = some frame) :
    wordAt mem root path index = tablesOf mem frame index := by
  rw [tableAt] at owner
  rw [wordAt, RadixTree.wordAt, owner]

theorem wordAt_of_none {mem : Nat → Nat} (missing : tableAt mem root path = none) :
    wordAt mem root path index = 0 := by
  rw [tableAt] at missing
  rw [wordAt, RadixTree.wordAt, missing]

/-- The word a level holds after `next_pg_dir`: an entry that was present stays as it
is, a missing one is created with the flags of this mapping. -/
def LinkedWord (old flags word : Nat) : Prop :=
  if old.testBit 0 then word = old
  else word.testBit 0 = true ∧ word.testBit 1 = flags.testBit 1

/-- `after` is `before` with one word replaced. -/
def WordChanged (before after : Nat → Nat) (root : Nat) (path : List (Fin 512)) (index : Fin 512)
    (word : Nat) : Prop :=
  ∀ other position, other.length ≤ 3 → wordAt after root other position =
    if other = path ∧ position = index then word else wordAt before root other position

theorem MapValid.fresh (page : NewPage m.pmm m.taken) (valid : MapValid m root)
    (same : m.pmm m.taken = 4096 * frame) (path : List (Fin 512)) (bound : path.length ≤ 3) :
    tableAt m.mem root path ≠ some frame := by
  intro reached
  obtain ⟨call, earlier, answer⟩ := valid.supplied path frame bound reached
  exact page.fresh call earlier (answer.trans same.symm)

theorem nextPgDir_present {cur ind : Nat} (present : (m.load (cur + 8 * ind)).testBit 0 = true) :
    nextPgDir m cur ind flags = (maskLow 12 (m.load (cur + 8 * ind)), m) := by
  have linked : m.load (cur + 8 * ind) &&& pfP ≠ 0 := fun zero => by
    simp [present_iff.mp zero] at present
  rw [nextPgDir, if_neg linked]

theorem nextPgDir_absent {cur ind : Nat} (absent : (m.load (cur + 8 * ind)).testBit 0 = false) :
    nextPgDir m cur ind flags = (maskLow 12 (m.pmm m.taken ||| (pfP ||| flags)),
      ((m.alloc.2.fms64 (m.pmm m.taken) 0 (pageSize / 8)).store (cur + 8 * ind) (m.pmm m.taken)).store
        (cur + 8 * ind) (m.pmm m.taken ||| (pfP ||| flags))) := by
  rw [nextPgDir, if_pos (present_iff.mpr absent)]
  simp only [load_store_self]
  rfl

theorem nextPgDir_taken (m : PagingMem) (cur ind flags : Nat) :
    m.taken ≤ (nextPgDir m cur ind flags).2.taken ∧ (nextPgDir m cur ind flags).2.taken ≤ m.taken + 1 := by
  unfold nextPgDir
  split
  · exact ⟨Nat.le_succ _, Nat.le_refl _⟩
  · exact ⟨Nat.le_refl _, Nat.le_succ _⟩

section

variable {child : Nat} (after : PagingMem)

theorem linkFresh_walks (page : NewPage m.pmm m.taken) (valid : MapValid m root)
    (owner : tableAt m.mem root path = some frame) (room : path.length < 3) (small : flags < 64)
    (absent : (tablesOf m.mem frame index).testBit 0 = false) (answer : m.pmm m.taken = 4096 * child)
    (tables : tablesOf after.mem = RadixTree.store (Function.update (tablesOf m.mem) child fun _ => 0)
      frame index (4096 * child ||| (pfP ||| flags)))
    (other : List (Fin 512)) (bound : other.length ≤ 3) : tableAt after.mem root other =
      if other = path ++ [index] then some child else tableAt m.mem root other := by
  have physical := page.physical
  have links : entryLink (4096 * child ||| (pfP ||| flags)) = some child := linkWord_link (by omega) small
  rw [tableAt, tables]
  exact RadixTree.walk_link valid.separated owner room (entryLink_of_absent absent) entryLink_zero
    (valid.fresh page answer) links bound

theorem linkFresh_spec (page : NewPage m.pmm m.taken) (valid : MapValid m root)
    (owner : tableAt m.mem root path = some frame) (room : path.length < 3) (small : flags < 64)
    (absent : (tablesOf m.mem frame index).testBit 0 = false) (answer : m.pmm m.taken = 4096 * child)
    (kept : after.pmm = m.pmm) (taken : after.taken = m.taken + 1)
    (tables : tablesOf after.mem = RadixTree.store (Function.update (tablesOf m.mem) child fun _ => 0)
      frame index (4096 * child ||| (pfP ||| flags))) :
    MapValid after root ∧ tableAt after.mem root (path ++ [index]) = some child ∧
      WordChanged m.mem after.mem root path index (4096 * child ||| (pfP ||| flags)) := by
  have physical := page.physical
  have fresh := valid.fresh page answer
  have unlinked : entryLink (tablesOf m.mem frame index) = none := entryLink_of_absent absent
  have links : entryLink (4096 * child ||| (pfP ||| flags)) = some child := linkWord_link (by omega) small
  have walks := linkFresh_walks after page valid owner room small absent answer tables
  have changed : WordChanged m.mem after.mem root path index (4096 * child ||| (pfP ||| flags)) := by
    intro other position bound
    rw [wordAt, tables]
    exact RadixTree.wordAt_link valid.separated owner room unlinked entryLink_zero fresh links bound
  refine ⟨⟨?_, ?_, ?_⟩, ?_, changed⟩
  · rw [tables]
    exact RadixTree.separated_link valid.separated owner room unlinked entryLink_zero fresh links
  · intro other table bound reached
    rw [kept, taken]
    rw [walks other bound] at reached
    by_cases new : other = path ++ [index]
    · rw [if_pos new, Option.some.injEq] at reached
      exact ⟨m.taken, Nat.lt_succ_self _, reached ▸ answer⟩
    · rw [if_neg new] at reached
      obtain ⟨call, earlier, same⟩ := valid.supplied other table bound reached
      exact ⟨call, Nat.lt_succ_of_lt earlier, same⟩
  · intro other position bound
    rw [changed other position (by omega)]
    by_cases here : other = path ∧ position = index
    · have := flags_lt small
      rw [if_pos here, linkWord_eq small]
      omega
    · rw [if_neg here]
      exact valid.clean other position bound
  · rw [walks _ (by rw [List.length_append, List.length_singleton]; omega), if_pos rfl]

end

theorem nextPgDir_linked (flags : Nat) (valid : MapValid m root) (owner : tableAt m.mem root path = some frame)
    (room : path.length < 3)
    (present : (wordAt m.mem root path index).testBit 0 = true) :
    ∃ child, nextPgDir m (4096 * frame) index flags = (4096 * child, m) ∧
      tableAt m.mem root (path ++ [index]) = some child := by
  have clean := valid.clean path index room
  rw [wordAt_of_table owner] at clean present
  refine ⟨_, (nextPgDir_present present).trans (congrArg (·, m) (maskLow_entry clean)), ?_⟩
  rw [tableAt_snoc, owner]
  exact entryLink_of_present present

/-- The state after a new table at the page `child` has been linked. -/
def linkedPage (m : PagingMem) (frame : Nat) (index : Fin 512) (child flags : Nat) : PagingMem :=
  ((m.alloc.2.fms64 (4096 * child) 0 (pageSize / 8)).store (4096 * frame + 8 * index) (4096 * child)).store
    (4096 * frame + 8 * index) (4096 * child ||| (pfP ||| flags))

theorem tablesOf_linkedPage {child : Nat} : tablesOf (linkedPage m frame index child flags).mem =
    RadixTree.store (Function.update (tablesOf m.mem) child fun _ => 0) frame index
      (4096 * child ||| (pfP ||| flags)) := by
  rw [linkedPage, tablesOf_store_twice, tablesOf_fms64]
  rfl

theorem nextPgDir_links (page : NewPage m.pmm m.taken) (small : flags < 64)
    (absent : (tablesOf m.mem frame index).testBit 0 = false) :
    ∃ child, m.pmm m.taken = 4096 * child ∧
      nextPgDir m (4096 * frame) index flags = (4096 * child, linkedPage m frame index child flags) := by
  have aligned := page.aligned
  have physical := page.physical
  obtain ⟨child, answer⟩ : ∃ child, m.pmm m.taken = 4096 * child := ⟨m.pmm m.taken / 4096, by omega⟩
  have pointer : maskLow 12 (4096 * child ||| (pfP ||| flags)) = 4096 * child := by
    have := flags_lt small
    rw [linkWord_eq small, maskLow_eq (by decide) (by omega)]
    omega
  refine ⟨child, answer, ?_⟩
  rw [nextPgDir_absent absent, answer, pointer]
  rfl

/-- `next_pg_dir` answers with the table at the longer path, and changes one word. -/
theorem nextPgDir_spec (index : Fin 512) (supply : FreshPages m.pmm (nextPgDir m (4096 * frame) index flags).2.taken)
    (valid : MapValid m root) (owner : tableAt m.mem root path = some frame) (room : path.length < 3)
    (small : flags < 64) :
    ∃ child word after, nextPgDir m (4096 * frame) index flags = (4096 * child, after) ∧
      after.pmm = m.pmm ∧ MapValid after root ∧ tableAt after.mem root (path ++ [index]) = some child ∧
      LinkedWord (wordAt m.mem root path index) flags word ∧
      WordChanged m.mem after.mem root path index word := by
  unfold LinkedWord
  by_cases present : (wordAt m.mem root path index).testBit 0 = true
  · obtain ⟨child, call, reached⟩ := nextPgDir_linked flags valid owner room present
    refine ⟨child, _, m, call, rfl, valid, reached, by rw [if_pos present], fun other position _ => ?_⟩
    by_cases here : other = path ∧ position = index
    · rw [if_pos here, here.1, here.2]
    · rw [if_neg here]
  · have absent := eq_false_of_ne_true present
    rw [wordAt_of_table owner] at absent
    have consumed : m.taken < (nextPgDir m (4096 * frame) index flags).2.taken := by
      rw [nextPgDir_absent absent]
      exact Nat.lt_succ_self _
    have page := supply.newPage consumed
    obtain ⟨child, answer, call⟩ := nextPgDir_links page small absent
    obtain ⟨linked, reached, changed⟩ := linkFresh_spec (linkedPage m frame index child flags) page valid owner room
      small absent answer rfl rfl tablesOf_linkedPage
    refine ⟨child, _, _, call, rfl, linked, reached, ?_, changed⟩
    rw [if_neg present]
    exact ⟨linkWord_present, linkWord_writable⟩

theorem storeLeaf_spec (valid : MapValid m root) (owner : tableAt m.mem root path = some frame)
    (last : path.length = 3) (after : PagingMem) {word : Nat} (supply : after.pmm = m.pmm)
    (taken : after.taken = m.taken)
    (tables : tablesOf after.mem = RadixTree.store (tablesOf m.mem) frame index word) :
    MapValid after root ∧ WordChanged m.mem after.mem root path index word := by
  have stored : ∀ (other : List (Fin 512)) (position : Fin 512), other.length ≤ 3 →
      tableAt after.mem root other = tableAt m.mem root other ∧ wordAt after.mem root other position =
        if other = path ∧ position = index then word else wordAt m.mem root other position := by
    intro other position bound
    rw [tableAt, wordAt, tables]
    exact RadixTree.wordAt_storeLeaf valid.separated owner last bound
  have walks := fun (other : List (Fin 512)) (bound : other.length ≤ 3) => (stored other index bound).1
  have changed : WordChanged m.mem after.mem root path index word :=
    fun other position bound => (stored other position bound).2
  refine ⟨⟨?_, ?_, ?_⟩, changed⟩
  · intro left right table leftBound rightBound leftReached rightReached
    exact valid.separated left right table leftBound rightBound
      ((walks left leftBound).symm.trans leftReached) ((walks right rightBound).symm.trans rightReached)
  · intro other table bound reached
    rw [supply, taken]
    exact valid.supplied other table bound ((walks other bound).symm.trans reached)
  · intro other position bound
    have notHere : ¬(other = path ∧ position = index) := fun here => by
      rw [← here.1] at last
      omega
    rw [changed other position (by omega), if_neg notHere]
    exact valid.clean other position bound

end Level

end Bwuhos
