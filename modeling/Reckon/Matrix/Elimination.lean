import Reckon.Matrix.Basic
import Reckon.Matrix.Scalar

/-!
# Elimination

`determinant` clears one column after the other below the pivot, for which it takes the entry of
greatest magnitude.  `reduced` brings a matrix to reduced row-echelon form; there the first entry
that is not negligible is the pivot.  Both work on rows as lists and are generic in the scalar and in
the threshold below which an entry counts as zero.
-/

namespace Reckon.Matrix

variable {α : Type} [Scalar α]

/-- `row - factor · pivotRow`, entry by entry. -/
def subtractScaled (row : List α) (factor : α) (pivotRow : List α) : List α :=
  List.zipWith (fun a b => a - factor * b) row pivotRow

/-! ## Determinant -/

/-- The magnitude of the first entry of a row. -/
def headMagnitude (row : List α) : α :=
  Scalar.magnitude (row.headD Scalar.zero)

/-- The index of the first row with the greatest first entry, where `best` is the greatest one so
far, at index `place`, and `i` the index of the next row. -/
def greatestFrom (best : α) (place i : Nat) : List (List α) → Nat
  | [] => place
  | row :: rest =>
    let m := headMagnitude row
    if Scalar.lt best m then greatestFrom m i (i + 1) rest
    else greatestFrom best place (i + 1) rest

/-- The row with the greatest first entry, the other rows with the first one put in its place, and
whether that was an exchange. -/
def choosePivot (first : List α) (rest : List (List α)) : List α × List (List α) × Bool :=
  match greatestFrom (headMagnitude first) 0 1 rest with
  | 0 => (first, rest, false)
  | i + 1 => (rest.getD i first, rest.set i first, true)

/-- Clears the first column of a row by means of the pivot row, and drops the column. -/
def clearHead (pivot : α) (pivotTail row : List α) : List α :=
  match row with
  | [] => []
  | x :: xs => subtractScaled xs (x / pivot) pivotTail

/-- Clears the first column: the pivot, whether its row was exchanged with the first one, and the rows
and columns that are left.  There is no pivot if the greatest candidate is negligible. -/
def clearColumn? (eps : α) : List (List α) → Option (α × Bool × List (List α))
  | [] => none
  | first :: rest =>
    match choosePivot first rest with
    | ([], _, _) => none
    | (pivot :: pivotTail, others, exchanged) =>
      if Scalar.negligible eps pivot then none
      else some (pivot, exchanged, others.map (clearHead pivot pivotTail))

/-- `acc` times the determinant of the rows; `n` is their number. -/
def determinantFrom (eps : α) : Nat → α → List (List α) → α
  | 0, acc, _ => acc
  | n + 1, acc, rows =>
    match clearColumn? eps rows with
    | none => Scalar.zero
    | some (pivot, exchanged, left) => determinantFrom eps n ((if exchanged then -acc else acc) * pivot) left

section Chosen

variable {eps pivot : α} {first pivotTail : List α} {rest others : List (List α)} {exchanged : Bool}

theorem clearColumn?_cons (h : choosePivot first rest = (pivot :: pivotTail, others, exchanged)) :
    clearColumn? eps (first :: rest) =
      if Scalar.negligible eps pivot then none
      else some (pivot, exchanged, others.map (clearHead pivot pivotTail)) := by
  simp only [clearColumn?, h]

theorem determinantFrom_cons (h : choosePivot first rest = (pivot :: pivotTail, others, exchanged))
    (n : Nat) (acc : α) :
    determinantFrom eps (n + 1) acc (first :: rest) =
      if Scalar.negligible eps pivot then Scalar.zero
      else determinantFrom eps n ((if exchanged then -acc else acc) * pivot)
        (others.map (clearHead pivot pivotTail)) := by
  rw [determinantFrom, clearColumn?_cons h]
  cases Scalar.negligible eps pivot <;> rfl

end Chosen

/-- The determinant of a square matrix. -/
def determinant (eps : α) (m : Matrix α) : α :=
  determinantFrom eps m.rowCount Scalar.one m.rows

/-! ## Reduced row-echelon form -/

/-- The entry of a row in a column. -/
def entry (row : List α) (col : Nat) : α :=
  row.getD col Scalar.zero

/-- The first column, from `lead` on, in which some row has an entry that is not negligible, and the
first such row; `width` columns are looked at. -/
def findPivot? (eps : α) (rows : List (List α)) (lead : Nat) : Nat → Option (Nat × Nat)
  | 0 => none
  | width + 1 =>
    match rows.findIdx? fun row => !Scalar.negligible eps (entry row lead) with
    | some i => some (lead, i)
    | none => findPivot? eps rows (lead + 1) width

/-- Clears column `lead` of a row by means of a row with a one there. -/
def clearAt (lead : Nat) (pivotRow row : List α) : List α :=
  subtractScaled row (entry row lead) pivotRow

/-- Reduces the rows `todo` below the finished rows `above`, whose pivots stand before column
`lead`; `n` bounds the number of rows still to do. -/
def reduceFrom (eps : α) (colCount : Nat) :
    Nat → List (List α) → List (List α) → Nat → List (List α)
  | n + 1, above, first :: rest, lead =>
    match findPivot? eps (first :: rest) lead (colCount - lead) with
    | none => above ++ first :: rest
    | some (col, i) =>
      let chosen := (first :: rest).getD i first
      let others := ((first :: rest).set i first).drop 1
      let pivot := entry chosen col
      let pivotRow := chosen.map (· / pivot)
      reduceFrom eps colCount n (above.map (clearAt col pivotRow) ++ [pivotRow])
        (others.map (clearAt col pivotRow)) (col + 1)
  | _, above, todo, _ => above ++ todo

/-- Zero in place of a negligible entry. -/
def cleaned (eps x : α) : α :=
  if Scalar.negligible eps x then Scalar.zero else x

/-- The rows of the reduced row-echelon form, negligible entries cleaned. -/
def reducedRows (eps : α) (m : Matrix α) : List (List α) :=
  (reduceFrom eps m.colCount.toNat m.rowCount [] m.rows 0).map (List.map (cleaned eps))

/-- The reduced row-echelon form. -/
def reduced? (eps : α) (m : Matrix α) : Option (Matrix α) :=
  ofRows? (reducedRows eps m)

end Reckon.Matrix
