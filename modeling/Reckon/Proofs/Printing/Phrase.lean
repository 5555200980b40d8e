import Reckon.Proofs.Syntax.Bare
import Reckon.Token.Basic
import Reckon.Token.Scan

/-!
# Phrases

A phrase is an expression as it can be written: its numbers are numerals, its names can be read back
as names, its matrices are rectangles with at least one cell, and the parameters of a definition
differ.  Expressions that break one of these rules are not phrases, so that nothing has to be assumed
of a phrase later.

`Phrase.node` is the syntax tree that a phrase stands for, without spans.
-/

namespace Reckon

/-- A name that is not reserved. -/
structure Name where
  first : Char
  others : List Char
  starts : Text.isNameStart first = true
  goesOn : ∀ c ∈ others, Text.isNamePart c = true
  notReserved : first :: others ∉ Token.reservedWords

namespace Name

/-- The characters of a name. -/
def chars (x : Name) : List Char :=
  x.first :: x.others

/-- The name as a text. -/
def text (x : Name) : String :=
  String.ofList x.chars

theorem wordKind (x : Name) : Token.wordKind x.chars = .identifier := by
  unfold Token.wordKind
  rw [if_neg]
  rw [List.contains_iff_mem]
  exact x.notReserved

end Name

/-- Digits, possibly followed by a point and further digits. -/
structure Numeral where
  whole : List Char
  fraction : Option (List Char)
  whole_ne_nil : whole ≠ []
  whole_digits : ∀ c ∈ whole, c.isDigit = true
  fraction_digits : ∀ ds ∈ fraction, ∀ c ∈ ds, c.isDigit = true

namespace Numeral

/-- The characters of a numeral. -/
def chars (n : Numeral) : List Char :=
  n.whole ++
    match n.fraction with
    | none => []
    | some ds => '.' :: ds

/-- The number that a numeral means. -/
def value (n : Numeral) : Float :=
  Token.numeralValue n.chars

end Numeral

/-- An expression as it can be written. -/
inductive Phrase where
  | number (numeral : Numeral) (unit : Option LengthUnit)
  | boolean (b : Bool)
  | var (x : Name)
  | unary (op : UnaryOp) (operand : Phrase)
  | binary (left : Phrase) (op : BinaryOp) (right : Phrase)
  | ternary (condition yes no : Phrase)
  /-- One row and one column more than the two numbers say. -/
  | matrix (height width : Nat) (cells : Fin (height + 1) → Fin (width + 1) → Phrase)
  | call (f : Name) (arity : Nat) (args : Fin arity → Phrase)
  /-- Each line of the body assigns its value to a name or just has it. -/
  | define (f : Name) (params : List Name) (distinct : (params.map Name.text).Nodup) (size : Nat)
      (targets : Fin size → Option Name) (body : Fin size → Phrase)

/-- The tree of a line: an assignment, or the value itself. -/
def lineNode (target : Option Name) (value : Node) : Node :=
  match target with
  | none => value
  | some x => .assign ⟨x.text, none⟩ value none

namespace Phrase

/-- The syntax tree of a phrase. -/
def node : Phrase → Node
  | number n unit => .literal (.number n.value unit) none
  | boolean b => .literal (.boolean b) none
  | var x => .var x.text none
  | unary op e => .unary op e.node none
  | binary l op r => .binary l.node op r.node none
  | ternary c y n => .ternary c.node y.node n.node none
  | matrix _ _ cells => .matrix (List.ofFn fun i => List.ofFn fun j => (cells i j).node) none
  | call f _ args => .call f.text (List.ofFn fun i => (args i).node) none
  | define f params _ _ targets body =>
    .define f.text (params.map fun p => ⟨p.text, none⟩)
      (List.ofFn fun i => lineNode (targets i) (body i).node) none none

/-- How loosely a phrase binds: operands and signs before them not at all, operators by their level,
a condition and a definition more loosely than any operator. -/
def rank : Phrase → Nat
  | binary _ op _ => op.level + 1
  | ternary _ _ _ | define _ _ _ _ _ _ => BinaryOp.levels + 1
  | _ => 0

end Phrase

/-- A line of a program. -/
structure Statement where
  /-- The name that the line assigns to, if any. -/
  target : Option Name
  value : Phrase

/-- The syntax tree of a line. -/
def Statement.node (s : Statement) : Node :=
  lineNode s.target s.value.node

end Reckon
