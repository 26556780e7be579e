import Mathlib.Data.List.Basic
import Mathlib.Tactic.Common

namespace Bwuhos.Data.LinkedList

/-! # Null-terminated linked lists

A traversal that may stop early, and what appending a node behind the last one does.
The link of every node is given by a function, so the lemmas apply to any layout of
the nodes in memory.
-/

section

variable {Ptr : Type u} {Result : Type v} [DecidableEq Ptr] (next : Ptr → Ptr) (null : Ptr)

def Chain : Ptr → List Ptr → Prop
  | ptr, [] => ptr = null
  | ptr, node :: rest => ptr = node ∧ node ≠ null ∧ Chain (next node) rest

/-- Visits nodes until one of them gives a result.  There is no answer when the
traversal or a visit does not end within its fuel. -/
def scan (visit : Ptr → Option (Option Result)) (done : Result) : Nat → Ptr → Option Result
  | 0, _ => none
  | fuel + 1, ptr =>
      if ptr = null then some done
      else match visit ptr with
        | none => none
        | some (some result) => some result
        | some none => scan visit done fuel (next ptr)

variable {next null} {after : Ptr → Ptr} {ptr head last new : Ptr} {nodes others : List Ptr} {fuel : Nat}

omit [DecidableEq Ptr] in
theorem Chain.notNull (chain : Chain next null ptr nodes) : ∀ node ∈ nodes, node ≠ null := by
  induction nodes generalizing ptr with
  | nil => exact fun node member => absurd member List.not_mem_nil
  | cons first rest ih =>
      intro node member
      rcases List.mem_cons.mp member with rfl | later
      · exact chain.2.1
      · exact ih chain.2.2 node later

/-- A traversal of a chain is a search in the list of its nodes. -/
theorem scan_chain {visit : Ptr → Option (Option Result)} {found : Ptr → Option Result} {done : Result}
    (chain : Chain next null ptr nodes) (visits : ∀ node ∈ nodes, visit node = some (found node))
    (enough : nodes.length < fuel) :
    scan next null visit done fuel ptr = some ((nodes.findSome? found).getD done) := by
  induction nodes generalizing ptr fuel with
  | nil =>
      obtain ⟨fuel, rfl⟩ := Nat.exists_eq_succ_of_ne_zero (Nat.ne_zero_of_lt enough)
      exact if_pos chain
  | cons node rest ih =>
      obtain ⟨fuel, rfl⟩ := Nat.exists_eq_succ_of_ne_zero (Nat.ne_zero_of_lt enough)
      obtain ⟨rfl, notNull, tail⟩ := chain
      have visited := visits ptr (List.mem_cons_self ..)
      rw [scan, if_neg notNull, visited, List.findSome?_cons]
      cases here : found ptr with
      | some result => rfl
      | none =>
          exact ih tail (fun node member => visits node (List.mem_cons_of_mem _ member))
            (Nat.lt_of_succ_lt_succ enough)

theorem scan_mono {visit visit' : Ptr → Option (Option Result)} {done result : Result} {more : Nat}
    (agree : ∀ node answer, visit node = some answer → visit' node = some answer) (less : fuel ≤ more)
    (answer : scan next null visit done fuel ptr = some result) :
    scan next null visit' done more ptr = some result := by
  induction fuel generalizing ptr more with
  | zero => cases answer
  | succ fuel ih =>
      obtain ⟨more, rfl⟩ := Nat.exists_eq_succ_of_ne_zero (Nat.ne_zero_of_lt less)
      rw [scan] at answer ⊢
      by_cases isNull : ptr = null
      · rwa [if_pos isNull] at answer ⊢
      · rw [if_neg isNull] at answer ⊢
        cases visited : visit ptr with
        | none => simp only [visited, reduceCtorEq] at answer
        | some outcome =>
            rw [agree ptr outcome visited]
            rw [visited] at answer
            cases outcome with
            | some value => exact answer
            | none => exact ih (Nat.le_of_succ_le_succ less) answer

omit [DecidableEq Ptr] in
theorem Chain.snoc (chain : Chain next null head nodes) (distinct : nodes.Nodup) (ends : nodes.getLast? = some last)
    (kept : ∀ node ∈ nodes, node ≠ last → after node = next node) (links : after last = new) (notNull : new ≠ null)
    (closed : after new = null) : Chain after null head (nodes ++ [new]) := by
  induction nodes generalizing head with
  | nil => cases ends
  | cons node rest ih =>
      obtain ⟨rfl, present, tail⟩ := chain
      refine ⟨rfl, present, ?_⟩
      cases rest with
      | nil =>
          obtain rfl := Option.some.inj ends
          exact ⟨links, notNull, closed⟩
      | cons second rest =>
          rw [List.getLast?_cons_cons] at ends
          have different : head ≠ last := fun same =>
            (List.nodup_cons.mp distinct).1 (same ▸ List.mem_of_getLast? ends)
          rw [kept head (List.mem_cons_self ..) different]
          exact ih tail (List.nodup_cons.mp distinct).2 ends fun node member =>
            kept node (List.mem_cons_of_mem _ member)

end

end Bwuhos.Data.LinkedList
