import Reckon.Decimal.Binary

/-!
# Remainder of doubles

The remainder of `x` by `y` is `x - n · y` for the whole number `n` obtained by cutting `x / y` off
toward zero.  It has the sign of `x` and is a double, so there is nothing to round: both operands are
written over the smaller of their two units and the remainder is taken of natural numbers.
-/

namespace Reckon.Number

/-- The remainder of `x` by a `y` that is not zero; `none` for an infinite `x`, which has no
remainder by any number. -/
def remainder? (x y : Float) : Option Float :=
  match Binary.decode x, Binary.decode y with
  | .nan, _ => some x
  | _, .nan => some y
  | .infinite _, _ => none
  | .finite _ _ _, .infinite _ => some x
  | .finite negative m q, .finite _ n r =>
    let unit := min q r
    let a := m * Nat.pow 2 (q - unit).toNat
    let b := n * Nat.pow 2 (r - unit).toNat
    some (Binary.encode negative (a % b) unit)

end Reckon.Number
