import Reckon.Decimal.Digits

/-!
# The shortest decimal that reads back

Among the decimals that round to a given double, `shortest` takes one with the fewest digits, and of
those the nearest to the double.  The double `m · 2 ^ q` owns an interval of reals: half way to each
neighbour, ends included when `m` is even.  On the grid of decimals with `n` digits only the two
neighbours of the double need a look, since if any point of the grid lies in the interval one of them
does.
-/

namespace Reckon.Decimal

/-- The numbers that round to `m · 2 ^ q`, in quarters of the unit `2 ^ q`.  Below a power of two
the next double is only half as far away. -/
structure Owned where
  low : Nat
  value : Nat
  high : Nat
  closed : Bool
deriving Repr

/-- The interval of a positive double. -/
def Owned.of (m : Nat) (q : Int) : Owned where
  low := if m = Nat.pow 2 52 ∧ -1074 < q then 4 * m - 1 else 4 * m - 2
  value := 4 * m
  high := 4 * m + 2
  closed := m % 2 == 0

/-- `c / b` lies in the interval, whose unit is `a / b`. -/
def Owned.holds (i : Owned) (a c : Nat) : Bool :=
  if i.closed then decide (i.low * a ≤ c) && decide (c ≤ i.high * a)
  else decide (i.low * a < c) && decide (c < i.high * a)

/-- The decimal with `n` digits that the interval holds, the nearer of two, the even one of two
equally near. -/
def onGrid? (i : Owned) (num den : Nat) (x : Int) (n : Nat) : Option Nat :=
  let (a, b) := scale num den (n - 1 - x)
  let d := i.value * a / b
  let lower := i.holds a (d * b)
  let upper := i.holds a ((d + 1) * b)
  match lower, upper with
  | false, false => none
  | true, false => some d
  | false, true => some (d + 1)
  | true, true => some (roundDiv (i.value * a) b)

/-- The digits on the coarsest of the grids from `n` digits on that has a decimal in the interval;
`fuel` grids are tried. -/
def shortestFrom (i : Owned) (num den : Nat) (x : Int) (n : Nat) : Nat → Digits
  | 0 => ⟨(onGrid? i num den x n).getD 0, x⟩
  | fuel + 1 =>
    match onGrid? i num den x n with
    | some d => if d = Nat.pow 10 n then ⟨d / 10, x + 1⟩ else ⟨d, x⟩
    | none => shortestFrom i num den x (n + 1) fuel

/-- The shortest digits that read back as `m · 2 ^ q`; seventeen always do. -/
def shortest (m : Nat) (q : Int) : Digits :=
  let (num, den) := fraction 1 (q - 2)
  let i := Owned.of m q
  shortestFrom i num den (decimalExponent (i.value * num) den) 1 17

end Reckon.Decimal
