import Mathlib.Logic.Relation
import Reckon.Proofs.Syntax.Place

/-!
# What nodes consist of

A node consists of the nodes that it is made of, of the names that it binds, and, if it is a definition, of its
body (`components`).  Going on from there one meets all that it contains (`Contains`).  That is no less than what
stands in it, inside whatever definitions (`Stands.contains`).
-/

namespace Reckon

/-- The name as a node. -/
def Identifier.asVar (i : Identifier) : Node :=
  .var i.name i.span

namespace Node

/-- What a node consists of, names that it binds and the body of a definition included. -/
def components : Node → List Node
  | empty _ | literal _ _ | var _ _ => []
  | unary _ e _ => [e]
  | binary l _ r _ => [l, r]
  | ternary c y n _ => [c, y, n]
  | matrix rows _ => rows.flatten
  | call _ args _ => args
  | assign target e _ => [target.asVar, e]
  | block children _ => children
  | define _ ps body bodySpan _ => ps.map Identifier.asVar ++ [block body bodySpan]

/-- The nodes that are met by going from a node to what it consists of. -/
def Contains : Node → Node → Prop :=
  Relation.ReflTransGen fun n e => e ∈ n.components

theorem parts_subset_components (n : Node) : n.parts ⊆ n.components := by
  cases n <;> simp [parts, components]

theorem Stands.contains {n e : Node} {around : List String} (h : n.Stands around e) : n.Contains e := by
  induction h with
  | root => exact .refl
  | part _ he ih => exact ih.tail (parts_subset_components _ he)
  | body _ ih => exact ih.tail (List.mem_append_right _ List.mem_cons_self)

end Node

end Reckon
