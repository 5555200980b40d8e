import Reckon.Syntax.Node

/-!
# Trees without spans

`Node.bare` forgets where a tree was read: two trees are equal up to spans if they are equal bare.
-/

namespace Reckon

/-- The name without its place. -/
def Identifier.bare (i : Identifier) : Identifier :=
  ⟨i.name, none⟩

namespace Node

mutual

/-- The tree without its spans. -/
def bare : Node → Node
  | empty _ => empty none
  | literal v _ => literal v none
  | var x _ => var x none
  | unary op e _ => unary op e.bare none
  | binary l op r _ => binary l.bare op r.bare none
  | ternary c y n _ => ternary c.bare y.bare n.bare none
  | matrix rows _ => matrix (bareRows rows) none
  | call f args _ => call f (bareList args) none
  | assign t v _ => assign t.bare v.bare none
  | block cs _ => block (bareList cs) none
  | define f ps body _ _ => define f (ps.map Identifier.bare) (bareList body) none none

/-- Trees without their spans. -/
def bareList : List Node → List Node
  | [] => []
  | n :: rest => n.bare :: bareList rest

/-- Rows of trees without their spans. -/
def bareRows : List (List Node) → List (List Node)
  | [] => []
  | row :: rest => bareList row :: bareRows rest

end

@[simp]
theorem bareList_eq_map (ns : List Node) : bareList ns = ns.map bare := by
  induction ns with
  | nil => rfl
  | cons n rest ih => rw [bareList, ih, List.map_cons]

@[simp]
theorem bareRows_eq_map (rows : List (List Node)) : bareRows rows = rows.map (List.map bare) := by
  induction rows with
  | nil => rfl
  | cons row rest ih => rw [bareRows, ih, bareList_eq_map, List.map_cons]

/-- A tree that is a name up to spans is that name. -/
theorem eq_var_of_bare {n : Node} {x : String} (h : n.bare = var x none) :
    ∃ s, n = var x s := by
  cases n <;> simp [bare] at h
  exact ⟨_, by rw [h]⟩

end Node

end Reckon
