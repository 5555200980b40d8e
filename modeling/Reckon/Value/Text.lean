import Reckon.Value.Basic

/-!
# How values are shown

Numbers are shown with a chosen number of significant digits, a unit after a space, truth values by
their words, matrices with their rows between brackets.
-/

namespace Reckon

/-- The largest number of digits that can be asked for. -/
def maxPrecision : Int := 2147483647

namespace Value

/-- A number with `precision` significant digits, `none` if that is no number of digits.  A zero
shows no sign. -/
def numberText? (precision : Int) (x : Float) : Option String :=
  if 0 ≤ precision ∧ precision ≤ maxPrecision then
    let text := Decimal.general precision.toNat x
    some (if text = "-0" then "0" else text)
  else none

/-- How a value is shown with `precision` significant digits; `none` if a number has to be shown and
that is no number of digits. -/
def text? (precision : Int) : Value → Option String
  | boolean b => some (if b then "true" else "false")
  | number x none => numberText? precision x
  | number x (some u) => (numberText? precision x).map (· ++ " " ++ u.symbol)
  | matrix m => do
    let rows ← m.rows.mapM fun row => do
      let cells ← row.mapM (numberText? precision)
      pure (" ".intercalate cells)
    pure ("[" ++ "; ".intercalate rows ++ "]")

end Value

end Reckon
