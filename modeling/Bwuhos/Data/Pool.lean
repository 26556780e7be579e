import Mathlib.Data.Finset.Card
import Mathlib.Data.Finset.SDiff

namespace Bwuhos.Data

/-! # Pools of resources

A pool hands out the elements of a finite set, one at a time, until none is left.
`Valid state held` relates an implementation state to the set of elements that are
handed out in it.
-/

section

variable {State : Type u} {Element : Type v} [DecidableEq Element]

/-- The next element is one that nobody holds; there is no next element only when
every element is held. -/
structure PoolSpec (take : State → Option Element × State) (all : Finset Element)
    (Valid : State → Finset Element → Prop) : Prop where
  taken : ∀ state held element, Valid state held → (take state).1 = some element →
    element ∈ all ∧ element ∉ held ∧ Valid (take state).2 (insert element held)
  empty : ∀ state held, Valid state held → (take state).1 = none → all ⊆ held

/-- Taking again and again until nothing is left, and what was taken, in order. -/
inductive Drains (take : State → Option Element × State) : State → List Element → Prop
  | empty {state : State} (stop : (take state).1 = none) : Drains take state []
  | next {state : State} {element : Element} {rest : List Element} (taken : (take state).1 = some element)
      (more : Drains take (take state).2 rest) : Drains take state (element :: rest)

variable {take : State → Option Element × State} {all held : Finset Element}
  {Valid : State → Finset Element → Prop}

omit [DecidableEq Element] in
theorem Drains.unique {state : State} {elements others : List Element} (drained : Drains take state elements)
    (again : Drains take state others) : elements = others := by
  induction drained generalizing others with
  | empty stop =>
      cases again with
      | empty _ => rfl
      | next taken _ => cases stop.symm.trans taken
  | next taken _ ih =>
      cases again with
      | empty stop => cases taken.symm.trans stop
      | next same more =>
          cases taken.symm.trans same
          rw [ih more]

/-- Draining a pool ends, and yields exactly the elements that were not handed out,
each of them once. -/
theorem PoolSpec.drains (spec : PoolSpec take all Valid) {state : State} (valid : Valid state held) :
    ∃ elements, Drains take state elements ∧ elements.Nodup ∧
      ∀ element, element ∈ elements ↔ element ∈ all ∧ element ∉ held := by
  -- every taken element leaves one fewer to take
  induction left : (all \ held).card generalizing state held with
  | zero =>
      have exhausted : all ⊆ held := Finset.sdiff_eq_empty_iff_subset.mp (Finset.card_eq_zero.mp left)
      cases result : (take state).1 with
      | none =>
          exact ⟨[], .empty result, .nil, fun element => by simpa using fun inAll => exhausted inAll⟩
      | some element =>
          obtain ⟨inAll, notHeld, _⟩ := spec.taken state held element valid result
          exact absurd (exhausted inAll) notHeld
  | succ count ih =>
      cases result : (take state).1 with
      | none =>
          have exhausted := Finset.sdiff_eq_empty_iff_subset.mpr (spec.empty state held valid result)
          simp [exhausted] at left
      | some first =>
          obtain ⟨inAll, notHeld, next⟩ := spec.taken state held first valid result
          have smaller : (all \ insert first held).card = count := by
            have erased := Finset.card_erase_of_mem (Finset.mem_sdiff.mpr ⟨inAll, notHeld⟩)
            rw [Finset.sdiff_insert]
            omega
          obtain ⟨rest, drained, nodup, exactly⟩ := ih next smaller
          refine ⟨first :: rest, .next result drained, List.nodup_cons.mpr ⟨?_, nodup⟩, fun element => ?_⟩
          · intro again
            exact ((exactly first).mp again).2 (Finset.mem_insert_self _ _)
          · rw [List.mem_cons, exactly element, Finset.mem_insert]
            by_cases same : element = first
            · simp [same, inAll, notHeld]
            · simp [same]

end

end Bwuhos.Data
