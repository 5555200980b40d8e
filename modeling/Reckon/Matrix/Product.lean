import Reckon.Matrix.Basic
import Reckon.Matrix.Scalar

/-!
# Products and powers of matrices

An entry of a product is the sum of the products of a row and a column.  How a list of products is
summed is a parameter, since sums of doubles can fail and be rounded in more than one way; the fault
of the sum, if any, is passed on.
-/

namespace Reckon.Matrix

/-- Why a product or a power has no value. -/
inductive Fault (ε : Type) where
  /-- The left operand has as many columns as the right one rows, or should have. -/
  | inner
  /-- The matrix to take a power of is not square. -/
  | notSquare
  /-- The exponent is no natural number. -/
  | exponent
  /-- The rows do not fit the dimensions. -/
  | ragged
  /-- A sum failed. -/
  | sum (fault : ε)
deriving Repr, DecidableEq

variable {α ε : Type} [Scalar α]

/-- The sum of the products of entries at the same place. -/
def dot (sum : List α → Except ε α) (row col : List α) : Except (Fault ε) α :=
  (sum (List.zipWith (· * ·) row col)).mapError .sum

/-- The matrix product. -/
def mul (sum : List α → Except ε α) (a b : Matrix α) : Except (Fault ε) (Matrix α) :=
  if a.colCount = b.rowCount then do
    let cols := columns b.rows
    let rows ← a.rows.mapM fun row => cols.mapM (dot sum row)
    match make? rows a.rowCount b.colCount with
    | some m => .ok m
    | none => .error .ragged
  else .error .inner

/-- The rows of the identity matrix. -/
def identityRows (n : Nat) : List (List α) :=
  (List.range n).map fun i =>
    (List.range n).map fun j => if i = j then Scalar.one else Scalar.zero

/-- The identity matrix. -/
def identity (n : Nat) : Matrix α where
  rows := identityRows n
  colCount := n
  row_length := by
    intro r hr
    obtain ⟨i, -, rfl⟩ := List.mem_map.1 hr
    simp

/-- `acc` multiplied `n` times by `base` on the right. -/
def mulTimes (sum : List α → Except ε α) (base : Matrix α) :
    Nat → Matrix α → Except (Fault ε) (Matrix α)
  | 0, acc => .ok acc
  | n + 1, acc =>
    match acc.mul sum base with
    | .ok next => mulTimes sum base n next
    | .error e => .error e

/-- A power of a square matrix; the exponent has to be a natural number. -/
def power (sum : List α → Except ε α) (base : Matrix α) (exponent : α) :
    Except (Fault ε) (Matrix α) :=
  if base.isSquare then
    match Scalar.toNat? exponent with
    | some n => mulTimes sum base n (identity base.rowCount)
    | none => .error .exponent
  else .error .notSquare

end Reckon.Matrix
