import Reckon.Decimal.Binary

/-!
# Scalars

What matrix arithmetic needs of its entries: the four operations, a magnitude and an order on it, and
which entries are natural numbers.  Doubles are the entries programs compute with; the rationals have
the same operations without rounding, and the laws of elimination are about them.
-/

namespace Reckon

/-- A type of matrix entries. -/
class Scalar (α : Type) extends Add α, Sub α, Mul α, Div α, Neg α where
  zero : α
  one : α
  /-- The distance from zero. -/
  magnitude : α → α
  /-- The strict order, as a test. -/
  lt : α → α → Bool
  /-- The natural number that an entry is, if it is one. -/
  toNat? : α → Option Nat

/-- The natural number that a double is, if it is one. -/
def floatToNat? (x : Float) : Option Nat :=
  match Binary.decode x with
  | .finite negative m q =>
    if m = 0 then some 0
    else if negative then none
    else if 0 ≤ q then some (m * Nat.pow 2 q.toNat)
    else
      let unit := Nat.pow 2 (-q).toNat
      if m % unit = 0 then some (m / unit) else none
  | _ => none

instance : Scalar Float where
  zero := 0.0
  one := 1.0
  magnitude := Float.abs
  lt x y := decide (x < y)
  toNat? := floatToNat?

instance : Scalar Rat where
  zero := 0
  one := 1
  magnitude x := if x < 0 then -x else x
  lt x y := decide (x < y)
  toNat? x := if x.den = 1 ∧ 0 ≤ x.num then some x.num.toNat else none

namespace Scalar

variable {α : Type} [Scalar α]

/-- The entry counts as zero for an elimination with threshold `eps`. -/
def negligible (eps x : α) : Bool :=
  lt (magnitude x) eps

end Scalar

end Reckon
