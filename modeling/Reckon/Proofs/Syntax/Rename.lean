import Reckon.Proofs.Syntax.Place

/-!
# Renaming a variable

`Node.rename p q` writes `q` for the variable `p`, where it is read and where it is assigned.  A
definition that has a parameter `p` of its own means that one by `p` and is left alone.  Functions have
names of their own kind, which are not renamed.

A program around a node is a context with a hole where the node stands.
-/

namespace Reckon

/-- The name `q` in place of `p`. -/
def renameTo (p q x : String) : String :=
  if x = p then q else x

theorem renameTo_of_ne {p x : String} (q : String) (h : x ≠ p) : renameTo p q x = x :=
  if_neg h

/-- A name at a place, `q` in place of `p`. -/
def Identifier.rename (p q : String) (i : Identifier) : Identifier :=
  { i with name := renameTo p q i.name }

namespace Node

mutual

/-- The tree with the variable `q` in place of `p`. -/
def rename (p q : String) : Node → Node
  | empty s => empty s
  | literal v s => literal v s
  | var x s => var (renameTo p q x) s
  | unary op e s => unary op (e.rename p q) s
  | binary l op r s => binary (l.rename p q) op (r.rename p q) s
  | ternary c y n s => ternary (c.rename p q) (y.rename p q) (n.rename p q) s
  | matrix rows s => matrix (renameRows p q rows) s
  | call f args s => call f (renameList p q args) s
  | assign t e s => assign (t.rename p q) (e.rename p q) s
  | block children s => block (renameList p q children) s
  | define f ps statements bs s =>
    -- Inside, `p` is the parameter.
    if p ∈ ps.map Identifier.name then define f ps statements bs s
    else define f ps (renameList p q statements) bs s

/-- Trees with the variable `q` in place of `p`. -/
def renameList (p q : String) : List Node → List Node
  | [] => []
  | n :: rest => n.rename p q :: renameList p q rest

/-- Rows of trees with the variable `q` in place of `p`. -/
def renameRows (p q : String) : List (List Node) → List (List Node)
  | [] => []
  | row :: rest => renameList p q row :: renameRows p q rest

end

@[simp]
theorem renameList_eq_map (p q : String) (ns : List Node) :
    renameList p q ns = ns.map (rename p q) := by
  induction ns with
  | nil => rfl
  | cons n rest ih => rw [renameList, ih, List.map_cons]

@[simp]
theorem renameRows_eq_map (p q : String) (rows : List (List Node)) :
    renameRows p q rows = rows.map (List.map (rename p q)) := by
  induction rows with
  | nil => rfl
  | cons row rest ih => rw [renameRows, ih, renameList_eq_map, List.map_cons]

/-! ## Names that occur -/

mutual

/-- The variables, targets of assignments and parameters in the tree. -/
def variableNames : Node → List String
  | empty _ | literal _ _ => []
  | var x _ => [x]
  | unary _ e _ => e.variableNames
  | binary l _ r _ => l.variableNames ++ r.variableNames
  | ternary c y n _ => c.variableNames ++ (y.variableNames ++ n.variableNames)
  | matrix rows _ => variableNamesRows rows
  | call _ args _ => variableNamesList args
  | assign t e _ => t.name :: e.variableNames
  | block children _ => variableNamesList children
  | define _ ps statements _ _ => ps.map Identifier.name ++ variableNamesList statements

/-- The variables, targets of assignments and parameters in the trees. -/
def variableNamesList : List Node → List String
  | [] => []
  | n :: rest => n.variableNames ++ variableNamesList rest

/-- The variables, targets of assignments and parameters in the rows. -/
def variableNamesRows : List (List Node) → List String
  | [] => []
  | row :: rest => variableNamesList row ++ variableNamesRows rest

end

@[simp]
theorem variableNamesList_eq_flatMap (ns : List Node) : variableNamesList ns = ns.flatMap variableNames := by
  induction ns with
  | nil => rfl
  | cons n rest ih => rw [variableNamesList, ih, List.flatMap_cons]

@[simp]
theorem variableNamesRows_eq_flatMap (rows : List (List Node)) :
    variableNamesRows rows = rows.flatten.flatMap variableNames := by
  induction rows with
  | nil => rfl
  | cons row rest ih =>
    rw [variableNamesRows, ih, variableNamesList_eq_flatMap, List.flatten_cons, List.flatMap_append]

theorem variableNames_parts {n e : Node} {x : String} (he : e ∈ n.parts) (hx : x ∈ e.variableNames) :
    x ∈ n.variableNames := by
  cases n with
  | empty | literal | var | define => exact absurd he List.not_mem_nil
  | matrix rows span =>
    rw [variableNames, variableNamesRows_eq_flatMap]
    exact List.mem_flatMap.2 ⟨e, he, hx⟩
  | call f args span =>
    rw [variableNames, variableNamesList_eq_flatMap]
    exact List.mem_flatMap.2 ⟨e, he, hx⟩
  | block children span =>
    rw [variableNames, variableNamesList_eq_flatMap]
    exact List.mem_flatMap.2 ⟨e, he, hx⟩
  | unary | assign | binary | ternary =>
    simp only [parts, List.mem_cons, List.not_mem_nil, or_false] at he
    grind [variableNames]

theorem variableNames_body {n e : Node} {x : String} (he : e ∈ n.body) (hx : x ∈ e.variableNames) :
    x ∈ n.variableNames := by
  cases n with
  | define f ps statements bodySpan span =>
    rw [variableNames, variableNamesList_eq_flatMap]
    exact List.mem_append_right _ (List.mem_flatMap.2 ⟨e, he, hx⟩)
  | _ => exact absurd he List.not_mem_nil

/-! ## Contexts -/

/-- A tree with a hole in it. -/
inductive Context where
  | hole
  | operand (op : UnaryOp) (inner : Context) (span : Option Span)
  | left (inner : Context) (op : BinaryOp) (right : Node) (span : Option Span)
  | right (left : Node) (op : BinaryOp) (inner : Context) (span : Option Span)
  | condition (inner : Context) (yes no : Node) (span : Option Span)
  | yes (condition : Node) (inner : Context) (no : Node) (span : Option Span)
  | no (condition yes : Node) (inner : Context) (span : Option Span)
  | cell (above : List (List Node)) (before : List Node) (inner : Context) (after : List Node)
      (below : List (List Node)) (span : Option Span)
  | argument (function : String) (before : List Node) (inner : Context) (after : List Node)
      (span : Option Span)
  | value (target : Identifier) (inner : Context) (span : Option Span)
  | child (before : List Node) (inner : Context) (after : List Node) (span : Option Span)
  | body (name : String) (params : List Identifier) (before : List Node) (inner : Context)
      (after : List Node) (bodySpan span : Option Span)

/-- The tree with a node in place of the hole. -/
def Context.fill (n : Node) : Context → Node
  | hole => n
  | operand op inner s => unary op (inner.fill n) s
  | left inner op r s => binary (inner.fill n) op r s
  | right l op inner s => binary l op (inner.fill n) s
  | condition inner y m s => ternary (inner.fill n) y m s
  | yes c inner m s => ternary c (inner.fill n) m s
  | no c y inner s => ternary c y (inner.fill n) s
  | cell above before inner after below s =>
    matrix (above ++ (before ++ inner.fill n :: after) :: below) s
  | argument f before inner after s => call f (before ++ inner.fill n :: after) s
  | value t inner s => assign t (inner.fill n) s
  | child before inner after s => block (before ++ inner.fill n :: after) s
  | body f ps before inner after bs s => define f ps (before ++ inner.fill n :: after) bs s

end Node

end Reckon
