/-!
# Powers of doubles

`power` has a value at every pair of doubles that are not both finite.  At finite ones it fails where
no real number is meant (a negative base under a fraction, zero under a negative exponent) and where
the result is too large for a double.
-/

namespace Reckon.Number

/-- Why a power has no value. -/
inductive PowerFault where
  /-- There is no such real number. -/
  | domain
  /-- The number is too large. -/
  | overflow
deriving Repr, DecidableEq

/-- `y` is an odd whole number. -/
def isOdd (y : Float) : Bool :=
  Float.floor y == y && !(Float.floor (y / 2) == y / 2)

/-- `x` to the power `y`. -/
def power (x y : Float) : Except PowerFault Float :=
  if y == 0 || x == 1 then .ok 1
  else if x.isNaN then .ok x
  else if y.isNaN then .ok y
  else if x.isInf then
    let odd := y.isFinite && isOdd y
    if 0 < y then .ok (if odd then x else x.abs)
    else .ok (if odd && x < 0 then -0.0 else 0.0)
  else if y.isInf then
    if x.abs == 1 then .ok 1
    else if (0 < y) == (1 < x.abs) then .ok y.abs
    else .ok 0
  else
    let r := Float.pow x y
    if r.isNaN then .error .domain
    else if r.isInf then .error (if x == 0 then .domain else .overflow)
    else .ok r

end Reckon.Number
