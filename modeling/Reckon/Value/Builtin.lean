import Reckon.Error
import Reckon.Matrix.Elimination
import Reckon.Value.Operation

/-!
# Native functions

The functions every program can call without defining them.  Each takes one argument.  Two of them
have a second name.
-/

namespace Reckon

/-- The native functions. -/
inductive Builtin where
  | transpose
  | trans
  | det
  | determinant
  | rref
  | sqrt
deriving Repr, DecidableEq

namespace Builtin

/-- The name under which the function is called. -/
def name : Builtin → String
  | transpose => "transpose"
  | trans => "trans"
  | det => "det"
  | determinant => "determinant"
  | rref => "rref"
  | sqrt => "sqrt"

/-- Every native function. -/
def all : List Builtin :=
  [transpose, trans, det, determinant, rref, sqrt]

/-- The native function of this name. -/
def ofName? (s : String) : Option Builtin :=
  all.find? fun b => b.name == s

/-- How many arguments a native function takes. -/
def arity : Nat := 1

/-- Entries below this count as zero for elimination. -/
def threshold : Float := 1e-12

/-- The matrix that `function` was given. -/
def matrixArgument (function : String) : Value → Except Failure (Matrix Float)
  | .matrix m => .ok m
  | v => .error (.ofCause (.argument (.expectsMatrix function v.kind)))

/-- The number that `function` was given. -/
def numberArgument (function : String) (v : Value) : Except Failure Float :=
  match v.number? with
  | some x => .ok x
  | none => .error (.ofCause (.argument (.expectsNumber function v.kind)))

/-- A matrix, or the complaint that rows do not fit. -/
def shaped : Option (Matrix Float) → Except Failure Value
  | some m => .ok (.matrix m)
  | none => .error (.ofCause (.dimensionMismatch .ragged))

/-- The function applied to a value. -/
def apply (b : Builtin) (v : Value) : Except Failure Value :=
  match b with
  | transpose | trans => do
    let m ← matrixArgument "transpose" v
    shaped m.transpose?
  | det | determinant => do
    let m ← matrixArgument "det" v
    if m.isSquare then .ok (BinaryOp.plain (m.determinant threshold))
    else .error (.ofCause (.dimensionMismatch (.determinantNotSquare m.dims)))
  | rref => do
    let m ← matrixArgument "rref" v
    shaped (m.reduced? threshold)
  | sqrt => do
    let x ← numberArgument "sqrt" v
    if x < 0 then .error (.ofCause (.argument (.negativeRoot x)))
    else .ok (BinaryOp.plain x.sqrt)

end Builtin

end Reckon
