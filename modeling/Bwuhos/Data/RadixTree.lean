import Mathlib.Logic.Function.Basic
import Mathlib.Data.List.Induction
import Mathlib.Tactic.Common

namespace Bwuhos.Data.RadixTree

/-! # Radix trees made of fixed-size tables

A tree of tables in memory: the word at `index` of a table either links to a child
table, which `next` extracts from it, or it does not.  Tables at depth `depth` hold
the leaf words, whatever those mean.

As long as no table is reached by two paths (`Separated`), storing a leaf word and
linking a fresh empty table both change the word at exactly one path.
-/

section

variable {Page : Type u} {Index : Type v} {Word : Type w} [DecidableEq Page] [DecidableEq Index]

def store (tables : Page → Index → Word) (page : Page) (index : Index) (word : Word) :
    Page → Index → Word :=
  Function.update tables page (Function.update (tables page) index word)

variable (next : Word → Option Page)

def walk (tables : Page → Index → Word) (page : Page) : List Index → Option Page
  | [] => some page
  | index :: path =>
      match next (tables page index) with
      | none => none
      | some child => walk tables child path

/-- The word at an index of the table a path leads to; `empty` where there is no table. -/
def wordAt (empty : Word) (tables : Page → Index → Word) (root : Page) (path : List Index)
    (index : Index) : Word :=
  match walk next tables root path with
  | none => empty
  | some page => tables page index

/-- No table is reached by two paths. -/
def Separated (tables : Page → Index → Word) (root : Page) (depth : Nat) : Prop :=
  ∀ left right page, left.length ≤ depth → right.length ≤ depth →
    walk next tables root left = some page → walk next tables root right = some page → left = right

variable {next} {empty word : Word} {tables : Page → Index → Word} {root page child : Page}
  {path other : List Index} {index position : Index} {depth : Nat}

omit [DecidableEq Index] [DecidableEq Page] in
theorem walk_snoc : walk next tables root (path ++ [index]) =
    match walk next tables root path with
    | none => none
    | some page => next (tables page index) := by
  induction path generalizing root with
  | nil => cases found : next (tables root index) <;> simp only [List.nil_append, walk, found]
  | cons first rest ih =>
      simp only [List.cons_append, walk]
      cases next (tables root first) with
      | none => rfl
      | some child => exact ih

theorem store_self : store tables page index word page index = word := by
  simp only [store, Function.update_self]

theorem store_of_ne {another : Page} (different : another ≠ page ∨ position ≠ index) :
    store tables page index word another position = tables another position := by
  by_cases samePage : another = page
  · have otherIndex : position ≠ index := different.resolve_left fun changed => changed samePage
    rw [samePage, store, Function.update_self, Function.update_of_ne otherIndex]
  · rw [store, Function.update_of_ne samePage]

/-- Storing a word only affects the walks that pass through it. -/
theorem walk_store (word : Word) (separated : Separated next tables root depth)
    (owner : walk next tables root path = some page) (bound : path.length ≤ depth)
    (otherBound : other.length ≤ depth) (apart : ¬(path ++ [index] <+: other)) :
    walk next (store tables page index word) root other = walk next tables root other := by
  induction other using List.reverseRecOn with
  | nil => rfl
  | append_singleton rest last ih =>
      rw [List.length_append, List.length_singleton] at otherBound
      have restApart : ¬(path ++ [index] <+: rest) := fun isPrefix =>
        apart (isPrefix.trans (List.prefix_append _ _))
      rw [walk_snoc, walk_snoc, ih (by omega) restApart]
      cases reached : walk next tables root rest with
      | none => rfl
      | some table =>
          have untouched : table ≠ page ∨ last ≠ index := by
            by_contra both
            rw [not_or, not_ne_iff, not_ne_iff] at both
            have samePath := separated rest path page (by omega) bound (both.1 ▸ reached) owner
            have same : path ++ [index] = rest ++ [last] := by rw [samePath, both.2]
            exact apart (same ▸ List.prefix_rfl)
          dsimp only
          rw [store_of_ne untouched]

/-- Where a store leaves the walks as they were, it changes the word at one path. -/
theorem wordAt_store (separated : Separated next tables root depth)
    (owner : walk next tables root path = some page) (bound : path.length ≤ depth) (otherBound : other.length ≤ depth)
    (kept : walk next (store tables page index word) root other = walk next tables root other) :
    wordAt next empty (store tables page index word) root other position =
      if other = path ∧ position = index then word else wordAt next empty tables root other position := by
  unfold wordAt
  rw [kept]
  by_cases here : other = path ∧ position = index
  · obtain ⟨rfl, rfl⟩ := here
    rw [if_pos ⟨rfl, rfl⟩, owner]
    exact store_self
  · rw [if_neg here]
    cases reached : walk next tables root other with
    | none => rfl
    | some table =>
        refine store_of_ne ?_
        by_contra both
        rw [not_or, not_ne_iff, not_ne_iff] at both
        exact here ⟨separated other path page otherBound bound (both.1 ▸ reached) owner, both.2⟩

theorem wordAt_storeLeaf (separated : Separated next tables root depth)
    (owner : walk next tables root path = some page) (last : path.length = depth)
    (otherBound : other.length ≤ depth) :
    walk next (store tables page index word) root other = walk next tables root other ∧
      wordAt next empty (store tables page index word) root other position =
        if other = path ∧ position = index then word else wordAt next empty tables root other position := by
  have apart : ¬(path ++ [index] <+: other) := fun isPrefix => by
    have := isPrefix.length_le
    rw [List.length_append, List.length_singleton] at this
    omega
  have kept := walk_store word separated owner (Nat.le_of_eq last) otherBound apart
  exact ⟨kept, wordAt_store separated owner (Nat.le_of_eq last) otherBound kept⟩

omit [DecidableEq Index] in
theorem walk_update_fresh (contents : Index → Word)
    (fresh : ∀ path : List Index, path.length ≤ depth → walk next tables root path ≠ some child)
    (bound : path.length ≤ depth) :
    walk next (Function.update tables child contents) root path = walk next tables root path := by
  induction path using List.reverseRecOn with
  | nil => rfl
  | append_singleton rest last ih =>
      rw [List.length_append, List.length_singleton] at bound
      rw [walk_snoc, walk_snoc, ih (by omega)]
      cases reached : walk next tables root rest with
      | none => rfl
      | some table =>
          have different : table ≠ child := fun same => fresh rest (by omega) (same ▸ reached)
          dsimp only
          rw [Function.update_of_ne different]

omit [DecidableEq Index] in
theorem separated_update_fresh (contents : Index → Word) (separated : Separated next tables root depth)
    (fresh : ∀ path : List Index, path.length ≤ depth → walk next tables root path ≠ some child) :
    Separated next (Function.update tables child contents) root depth := by
  intro left right table leftBound rightBound leftReached rightReached
  rw [walk_update_fresh contents fresh leftBound] at leftReached
  rw [walk_update_fresh contents fresh rightBound] at rightReached
  exact separated left right table leftBound rightBound leftReached rightReached

omit [DecidableEq Index] in
theorem wordAt_update_fresh (contents : Index → Word)
    (fresh : ∀ path : List Index, path.length ≤ depth → walk next tables root path ≠ some child)
    (bound : path.length ≤ depth) :
    wordAt next empty (Function.update tables child contents) root path index =
      wordAt next empty tables root path index := by
  unfold wordAt
  rw [walk_update_fresh contents fresh bound]
  cases reached : walk next tables root path with
  | none => rfl
  | some table =>
      have different : table ≠ child := fun same => fresh path bound (same ▸ reached)
      dsimp only
      rw [Function.update_of_ne different]

omit [DecidableEq Index] [DecidableEq Page] in
theorem walk_none_below (stuck : walk next tables root path = none) (isPrefix : path <+: other) :
    walk next tables root other = none := by
  obtain ⟨rest, rfl⟩ := isPrefix
  induction rest using List.reverseRecOn with
  | nil => rw [List.append_nil]; exact stuck
  | append_singleton rest last ih => rw [← List.append_assoc, walk_snoc, ih]

/-- Clearing a fresh table and linking it under an index that had no child adds one
path to the tree. -/
theorem walk_link (separated : Separated next tables root depth)
    (owner : walk next tables root path = some page) (room : path.length < depth)
    (unlinked : next (tables page index) = none) (blank : next empty = none)
    (fresh : ∀ path : List Index, path.length ≤ depth → walk next tables root path ≠ some child)
    (links : next word = some child) (otherBound : other.length ≤ depth) :
    walk next (store (Function.update tables child fun _ => empty) page index word) root other =
      if other = path ++ [index] then some child else walk next tables root other := by
  have pageDifferent : page ≠ child := fun same => fresh path (by omega) (same ▸ owner)
  have kept := fun (some : List Index) (bound : some.length ≤ depth) =>
    walk_update_fresh (fun _ => empty) fresh bound
  have clearedSeparated := separated_update_fresh (fun _ => empty) separated fresh
  have clearedOwner := (kept path (by omega)).trans owner
  have linked : walk next (store (Function.update tables child fun _ => empty) page index word) root
      (path ++ [index]) = some child := by
    have pathApart : ¬(path ++ [index] <+: path) := fun isPrefix => by
      have := isPrefix.length_le
      rw [List.length_append, List.length_singleton] at this
      omega
    rw [walk_snoc, walk_store word clearedSeparated clearedOwner (by omega) (by omega) pathApart, clearedOwner]
    exact (congrArg next store_self).trans links
  by_cases here : other = path ++ [index]
  · rw [if_pos here, here]
    exact linked
  · rw [if_neg here]
    by_cases below : path ++ [index] <+: other
    · have stuck : walk next tables root (path ++ [index]) = none := by rw [walk_snoc, owner]; exact unlinked
      rw [walk_none_below stuck below]
      obtain ⟨rest, rfl⟩ := below
      cases rest with
      | nil => exact absurd (List.append_nil _) here
      | cons first rest =>
          have emptyWord : store (Function.update tables child fun _ => empty) page index word
              child first = empty := by
            rw [store_of_ne (Or.inl pageDifferent.symm), Function.update_self]
          have stops : walk next (store (Function.update tables child fun _ => empty) page index word) root
              (path ++ [index] ++ [first]) = none := by
            rw [walk_snoc, linked]
            exact (congrArg next emptyWord).trans blank
          exact walk_none_below stops ⟨rest, by simp⟩
    · rw [walk_store word clearedSeparated clearedOwner (by omega) otherBound below, kept other otherBound]

theorem separated_link (separated : Separated next tables root depth)
    (owner : walk next tables root path = some page) (room : path.length < depth)
    (unlinked : next (tables page index) = none) (blank : next empty = none)
    (fresh : ∀ path : List Index, path.length ≤ depth → walk next tables root path ≠ some child)
    (links : next word = some child) :
    Separated next (store (Function.update tables child fun _ => empty) page index word) root depth := by
  have walks := fun (some : List Index) (bound : some.length ≤ depth) =>
    walk_link separated owner room unlinked blank fresh links bound
  intro left right table leftBound rightBound leftReached rightReached
  rw [walks left leftBound] at leftReached
  rw [walks right rightBound] at rightReached
  by_cases leftNew : left = path ++ [index]
  · by_cases rightNew : right = path ++ [index]
    · rw [leftNew, rightNew]
    · rw [if_pos leftNew] at leftReached
      rw [if_neg rightNew, ← leftReached] at rightReached
      exact absurd rightReached (fresh right rightBound)
  · rw [if_neg leftNew] at leftReached
    by_cases rightNew : right = path ++ [index]
    · rw [if_pos rightNew] at rightReached
      exact absurd (rightReached ▸ leftReached) (fresh left leftBound)
    · rw [if_neg rightNew] at rightReached
      exact separated left right table leftBound rightBound leftReached rightReached

/-- Linking a fresh empty table changes the word at one path: the words of the new
table are as empty as the words of the missing table were. -/
theorem wordAt_link (separated : Separated next tables root depth)
    (owner : walk next tables root path = some page) (room : path.length < depth)
    (unlinked : next (tables page index) = none) (blank : next empty = none)
    (fresh : ∀ path : List Index, path.length ≤ depth → walk next tables root path ≠ some child)
    (links : next word = some child) (otherBound : other.length ≤ depth) :
    wordAt next empty (store (Function.update tables child fun _ => empty) page index word) root other position =
      if other = path ∧ position = index then word else wordAt next empty tables root other position := by
  have pageDifferent : page ≠ child := fun same => fresh path (by omega) (same ▸ owner)
  unfold wordAt
  rw [walk_link separated owner room unlinked blank fresh links otherBound]
  by_cases new : other = path ++ [index]
  · have notPath : other ≠ path := fun same => by simp [same] at new
    have stuck : walk next tables root (path ++ [index]) = none := by rw [walk_snoc, owner]; exact unlinked
    rw [if_pos new, if_neg fun here => notPath here.1, new, stuck]
    dsimp only
    rw [store_of_ne (Or.inl pageDifferent.symm), Function.update_self]
  · rw [if_neg new]
    by_cases here : other = path ∧ position = index
    · obtain ⟨rfl, rfl⟩ := here
      rw [if_pos ⟨rfl, rfl⟩, owner]
      exact store_self
    · rw [if_neg here]
      cases reached : walk next tables root other with
      | none => rfl
      | some table =>
          have untouched : table ≠ page ∨ position ≠ index := by
            by_contra both
            rw [not_or, not_ne_iff, not_ne_iff] at both
            exact here ⟨separated other path page otherBound (by omega) (both.1 ▸ reached) owner, both.2⟩
          have different : table ≠ child := fun same => fresh other otherBound (same ▸ reached)
          dsimp only
          rw [store_of_ne untouched, Function.update_of_ne different]

end

end Bwuhos.Data.RadixTree
