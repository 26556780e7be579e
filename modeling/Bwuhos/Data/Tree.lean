import Mathlib.Tactic.Common

namespace Bwuhos.Data

/-! # Trees of values

A recursion that acts on the value of a node and then on its subtrees, one after the
other, acts on the values in preorder.
-/

inductive OrderedTree (Value : Type) where
  | node (value : Value) (children : List (OrderedTree Value))

namespace OrderedTree

variable {Value State : Type} {m : Type → Type} [Monad m]

mutual
/-- The value of every node, before those of its subtrees. -/
def preorder : OrderedTree Value → List Value
  | .node value children => value :: preorderAll children

def preorderAll : List (OrderedTree Value) → List Value
  | [] => []
  | tree :: rest => preorder tree ++ preorderAll rest
end

mutual
def visit (act : Value → State → m State) : OrderedTree Value → State → m State
  | .node value children, state => do
      let state ← act value state
      visitAll act children state

def visitAll (act : Value → State → m State) : List (OrderedTree Value) → State → m State
  | [], state => pure state
  | tree :: rest, state => do
      let state ← visit act tree state
      visitAll act rest state
end

/-- Acts on one value after the other. -/
def each (act : Value → State → m State) (values : List Value) (state : State) : m State :=
  values.foldlM (fun state value => act value state) state

mutual
theorem visit_eq [LawfulMonad m] (act : Value → State → m State) :
    (tree : OrderedTree Value) → (state : State) → visit act tree state = each act tree.preorder state
  | .node value children, state => by
      simp only [visit, preorder, each, List.foldlM_cons, visitAll_eq act children]

theorem visitAll_eq [LawfulMonad m] (act : Value → State → m State) :
    (trees : List (OrderedTree Value)) → (state : State) → visitAll act trees state = each act (preorderAll trees) state
  | [], _ => rfl
  | tree :: rest, state => by
      simp only [visitAll, preorderAll, each, List.foldlM_append, visit_eq act tree, visitAll_eq act rest]
end

/-- Trees that are single nodes. -/
theorem preorderAll_leaves (values : List Value) : preorderAll (values.map fun value => node value []) = values := by
  induction values with
  | nil => rfl
  | cons value rest ih =>
      simp only [List.map_cons, preorderAll, preorder, ih, List.singleton_append]

end OrderedTree

end Bwuhos.Data
