import Reckon.Error
import Reckon.Matrix.Product
import Reckon.Number.Power
import Reckon.Number.Remainder
import Reckon.Syntax.Operator

/-!
# Operations on values

What each operator does with each kind of operand.  Arithmetic takes a truth value for the number it
counts as; between a number and a matrix it works entry by entry, between matrices it has the rules of
matrix algebra.  Comparison is of numbers, except that any two values are equal or not; logic is of
truth values.  Results carry no unit.
-/

namespace Reckon

/-- A value as arithmetic sees it. -/
inductive Operand where
  | scalar (x : Float)
  | matrix (m : Matrix Float)

/-- A value as arithmetic sees it. -/
def Value.operand : Value → Operand
  | .number x _ => .scalar x
  | .boolean b => .scalar (Value.ofBit b)
  | .matrix m => .matrix m

namespace BinaryOp

/-- The operator is not for these kinds of operand. -/
def unsupported (op : BinaryOp) (left right : Value) : Failure :=
  .ofCause (.unsupportedOperation op.symbol left.kind.name (some right.kind.name))

/-- A number without unit. -/
def plain (x : Float) : Value :=
  .number x none

/-- A function of entries at the same place. -/
def entrywise (op : BinaryOp) (f : Float → Float → Float) (a b : Matrix Float) :
    Except Failure Value :=
  match a.zipWith? f b with
  | some m => .ok (.matrix m)
  | none => .error (.ofCause (.dimensionMismatch (.unequal op.symbol a.dims b.dims)))

/-- The failure that a fault of a product or power of matrices is. -/
def matrixFailure (left right : Dims) (exponent : Float) : Matrix.Fault Number.SumFault → Failure
  | .inner => .ofCause (.dimensionMismatch (.inner left right))
  | .notSquare => .ofCause (.dimensionMismatch .powerNotSquare)
  | .exponent => .ofCause (.evaluation (.matrixExponent exponent))
  | .ragged => .ofCause (.dimensionMismatch .ragged)
  | .sum fault => .mishap (.sum fault)

/-- The product of two matrices. -/
def matrixProduct (a b : Matrix Float) : Except Failure Value :=
  ((a.mul Number.exactSum b).mapError (matrixFailure a.dims b.dims 0)).map .matrix

/-- The power of a matrix. -/
def matrixPower (a : Matrix Float) (exponent : Float) : Except Failure Value :=
  ((a.power Number.exactSum exponent).mapError (matrixFailure a.dims a.dims exponent)).map
    .matrix

/-- The power of a number. -/
def numberPower (x y : Float) : Except Failure Value :=
  match Number.power x y with
  | .ok r => .ok (plain r)
  | .error .domain => .error (.ofCause (.evaluation (.powerDomain x y)))
  | .error .overflow => .error (.ofCause (.evaluation .powerOverflow))

/-- Sum, difference, product, quotient, remainder and power. -/
def arithmetic (op : BinaryOp) (left right : Value) : Except Failure Value :=
  match op, left.operand, right.operand with
  | .add, .scalar x, .scalar y => .ok (plain (x + y))
  | .add, .matrix a, .scalar y => .ok (.matrix (a.map (· + y)))
  | .add, .scalar x, .matrix b => .ok (.matrix (b.map (· + x)))
  | .add, .matrix a, .matrix b => entrywise op (· + ·) a b
  | .sub, .scalar x, .scalar y => .ok (plain (x - y))
  | .sub, .matrix a, .scalar y => .ok (.matrix (a.map (· - y)))
  | .sub, .scalar x, .matrix b => .ok (.matrix (b.map (x - ·)))
  | .sub, .matrix a, .matrix b => entrywise op (· - ·) a b
  | .mul, .scalar x, .scalar y => .ok (plain (x * y))
  | .mul, .matrix a, .scalar y => .ok (.matrix (a.map (· * y)))
  | .mul, .scalar x, .matrix b => .ok (.matrix (b.map (· * x)))
  | .mul, .matrix a, .matrix b => matrixProduct a b
  | .div, .scalar x, .scalar y =>
    if y == 0 then .error (.ofCause (.divisionByZero op.symbol)) else .ok (plain (x / y))
  | .rem, .scalar x, .scalar y =>
    if y == 0 then .error (.ofCause (.divisionByZero op.symbol))
    else
      match Number.remainder? x y with
      | some r => .ok (plain r)
      | none => .error (.mishap .infiniteRemainder)
  | .pow, .scalar x, .scalar y => numberPower x y
  | .pow, .matrix a, .scalar y => matrixPower a y
  | _, _, _ => .error (op.unsupported left right)

/-- The order of two numbers. -/
def comparison (op : BinaryOp) (test : Float → Float → Bool) (left right : Value) :
    Except Failure Value :=
  match left.number?, right.number? with
  | some x, some y => .ok (.boolean (test x y))
  | _, _ => .error (op.unsupported left right)

/-- A connective of two truth values. -/
def logic (op : BinaryOp) (connective : Bool → Bool → Bool) (left right : Value) :
    Except Failure Value :=
  match left, right with
  | .boolean a, .boolean b => .ok (.boolean (connective a b))
  | _, _ => .error (op.unsupported left right)

/-- Equality of values; a number and a matrix differ.  What is not a number differs from itself, as a number and as an
entry of a matrix alike (`Matrix.same`). -/
def equals (left right : Value) : Bool :=
  match left.operand, right.operand with
  | .scalar x, .scalar y => x == y
  | .matrix a, .matrix b => a.same b
  | _, _ => false

/-- The operator applied to two values. -/
def apply (op : BinaryOp) (left right : Value) : Except Failure Value :=
  match op with
  | .add | .sub | .mul | .div | .rem | .pow => arithmetic op left right
  | .lt => comparison op (fun x y => decide (x < y)) left right
  | .le => comparison op (fun x y => decide (x ≤ y)) left right
  | .gt => comparison op (fun x y => decide (y < x)) left right
  | .ge => comparison op (fun x y => decide (y ≤ x)) left right
  | .eq => .ok (.boolean (equals left right))
  | .ne => .ok (.boolean (!equals left right))
  | .and => logic op (· && ·) left right
  | .or => logic op (· || ·) left right
  | .bitAnd => logic op (· && ·) left right
  | .bitOr => logic op (· || ·) left right

end BinaryOp

namespace UnaryOp

/-- The sign applied to a value: a plus changes nothing, a minus multiplies by minus one. -/
def apply (op : UnaryOp) (v : Value) : Except Failure Value :=
  match op with
  | .plus => .ok v
  | .minus => BinaryOp.apply .mul v (BinaryOp.plain (-1.0))
  | .not =>
    match v with
    | .boolean b => .ok (.boolean (!b))
    | _ => .error (.ofCause (.unsupportedOperation op.symbol v.kind.name none))

end UnaryOp

end Reckon
