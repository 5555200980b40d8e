import Reckon.Matrix.Basic
import Reckon.Decimal.Text

/-!
# Values

A value is a number, which may carry a length unit, a truth value, or a matrix of doubles.  A truth
value also counts as the number 0 or 1 wherever a number is asked for (`Value.number?`), but not the
other way round.
-/

namespace Reckon

/-- The units a number literal can carry.  They are kept and shown, never converted. -/
inductive LengthUnit where
  | metre
  | centimetre
  | millimetre
  | kilometre
deriving Repr, DecidableEq

namespace LengthUnit

/-- The symbol of a unit. -/
def symbol : LengthUnit → String
  | metre => "m"
  | centimetre => "cm"
  | millimetre => "mm"
  | kilometre => "km"

/-- Every unit. -/
def all : List LengthUnit :=
  [metre, centimetre, millimetre, kilometre]

/-- The unit with this symbol. -/
def ofSymbol? (s : String) : Option LengthUnit :=
  all.find? fun u => u.symbol == s

end LengthUnit

/-- The kinds of value. -/
inductive ValueKind where
  | number
  | boolean
  | matrix
deriving Repr, DecidableEq

/-- The name by which messages call a kind of value. -/
def ValueKind.name : ValueKind → String
  | number => "Number"
  | boolean => "Boolean"
  | matrix => "Matrix"

/-- A value. -/
inductive Value where
  | number (x : Float) (unit : Option LengthUnit)
  | boolean (b : Bool)
  | matrix (m : Matrix Float)

namespace Value

/-- The kind of a value. -/
def kind : Value → ValueKind
  | number _ _ => .number
  | boolean _ => .boolean
  | matrix _ => .matrix

/-- The number that a truth value counts as. -/
def ofBit (b : Bool) : Float :=
  if b then 1.0 else 0.0

/-- The number that a value is or counts as. -/
def number? : Value → Option Float
  | number x _ => some x
  | boolean b => some (ofBit b)
  | matrix _ => none

/-- Only a matrix is no number. -/
theorem number?_eq_none_iff {v : Value} : v.number? = none ↔ v.kind = .matrix := by
  cases v <;> simp [number?, kind]

end Value

end Reckon
