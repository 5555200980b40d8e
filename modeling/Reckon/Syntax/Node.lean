import Reckon.Source.Span
import Reckon.Syntax.Operator
import Reckon.Value.Basic

/-!
# Syntax trees

A program is a tree of nodes.  Each node may know the span it was read from; trees built by hand need
not.  Nothing about a program's meaning depends on spans, only where its errors are reported.
-/

namespace Reckon

/-- A name at a place: a parameter, or the target of an assignment. -/
structure Identifier where
  name : String
  span : Option Span := none
deriving Repr, DecidableEq

/-- A node of a syntax tree. -/
inductive Node where
  /-- Nothing. -/
  | empty (span : Option Span)
  | literal (value : Value) (span : Option Span)
  | var (name : String) (span : Option Span)
  | unary (op : UnaryOp) (operand : Node) (span : Option Span)
  | binary (left : Node) (op : BinaryOp) (right : Node) (span : Option Span)
  /-- One of two branches, chosen by a condition. -/
  | ternary (condition yes no : Node) (span : Option Span)
  | matrix (rows : List (List Node)) (span : Option Span)
  | call (function : String) (args : List Node) (span : Option Span)
  | assign (target : Identifier) (value : Node) (span : Option Span)
  /-- Statements in order. -/
  | block (children : List Node) (span : Option Span)
  /-- A function definition; its body is a block with a span of its own. -/
  | define (name : String) (params : List Identifier) (body : List Node) (bodySpan : Option Span)
      (span : Option Span)

instance : Inhabited Node := ⟨.empty none⟩

namespace Node

/-- Where the node was read. -/
def span : Node → Option Span
  | empty s | literal _ s | var _ s | unary _ _ s | binary _ _ _ s | ternary _ _ _ s
  | matrix _ s | call _ _ s | assign _ _ s | block _ s | define _ _ _ _ s => s

/-- The node is nothing. -/
def isEmpty : Node → Bool
  | empty _ => true
  | _ => false

/-- The name that the node is, if it is just a name. -/
def identifier? : Node → Option Identifier
  | var name span => some ⟨name, span⟩
  | _ => none

end Node

end Reckon
