import Reckon.Token.Kind

/-!
# Operators

The binary operators with their precedence, and the three signs that stand before an operand.  A
lower level binds tighter; every binary operator groups to the left.
-/

namespace Reckon

/-- Operators between two operands. -/
inductive BinaryOp where
  | add
  | sub
  | mul
  | div
  | rem
  | pow
  | lt
  | le
  | gt
  | ge
  | eq
  | ne
  | and
  | or
  | bitAnd
  | bitOr
deriving Repr, DecidableEq

namespace BinaryOp

/-- How the operator is written. -/
def symbol : BinaryOp → String
  | add => "+"
  | sub => "-"
  | mul => "*"
  | div => "/"
  | rem => "%"
  | pow => "^"
  | lt => "<"
  | le => "<="
  | gt => ">"
  | ge => ">="
  | eq => "=="
  | ne => "!="
  | and => "&&"
  | or => "||"
  | bitAnd => "&"
  | bitOr => "|"

/-- Every binary operator. -/
def all : List BinaryOp :=
  [add, sub, mul, div, rem, pow, lt, le, gt, ge, eq, ne, and, or, bitAnd, bitOr]

theorem mem_all (op : BinaryOp) : op ∈ all := by
  cases op <;> decide

/-- The operator written so. -/
def ofSymbol? (s : String) : Option BinaryOp :=
  all.find? fun op => op.symbol == s

/-- The operator that a token of this kind is. -/
def ofKind? : Token.Kind → Option BinaryOp
  | .plus => some add
  | .minus => some sub
  | .star => some mul
  | .slash => some div
  | .percent => some rem
  | .caret => some pow
  | .less => some lt
  | .lessEqual => some le
  | .greater => some gt
  | .greaterEqual => some ge
  | .equal => some eq
  | .notEqual => some ne
  | .and => some and
  | .or => some or
  | .ampersand => some bitAnd
  | .pipe => some bitOr
  | _ => none

/-- How loosely the operator binds. -/
def level : BinaryOp → Nat
  | pow => 0
  | rem => 1
  | mul | div => 2
  | add | sub => 3
  | bitAnd | bitOr => 4
  | lt | le | gt | ge | eq | ne => 5
  | and => 6
  | or => 7

/-- One more than the level of the loosest operator. -/
def levels : Nat := 8

theorem level_lt_levels (op : BinaryOp) : op.level < levels := by
  cases op <;> decide

/-- The operators that are also signs, so that blanks decide about them in a matrix row. -/
def isSign (op : BinaryOp) : Bool :=
  op.level == 3

end BinaryOp

/-- Signs before an operand. -/
inductive UnaryOp where
  | plus
  | minus
  | not
deriving Repr, DecidableEq

namespace UnaryOp

/-- How the sign is written. -/
def symbol : UnaryOp → String
  | plus => "+"
  | minus => "-"
  | not => "!"

/-- Every sign. -/
def all : List UnaryOp :=
  [plus, minus, not]

/-- The sign written so. -/
def ofSymbol? (s : String) : Option UnaryOp :=
  all.find? fun op => op.symbol == s

/-- The sign that a token of this kind is. -/
def ofKind? : Token.Kind → Option UnaryOp
  | .plus => some plus
  | .minus => some minus
  | .bang => some not
  | _ => none

end UnaryOp

/-- The operator that an assignment applies before it assigns: none for `=`, addition for `+=` and so
on; nothing for a token that assigns nothing. -/
def assignment? : Token.Kind → Option (Option BinaryOp)
  | .assign => some none
  | .plusAssign => some (some .add)
  | .minusAssign => some (some .sub)
  | .starAssign => some (some .mul)
  | .slashAssign => some (some .div)
  | _ => none

end Reckon
