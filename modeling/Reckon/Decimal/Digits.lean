/-!
# Decimal digits of a fraction

`roundDiv` is division to the nearest whole number, a half going to the even neighbour, and
`decimalExponent` is the place of the leading digit of a positive fraction.  `significant` joins them:
the first `n` digits of a fraction, correctly rounded.
-/

namespace Reckon.Decimal

/-- `num / den` to the nearest whole number, a half to the even one. -/
def roundDiv (num den : Nat) : Nat :=
  let d := num / den
  let twice := 2 * (num % den)
  if twice < den then d
  else if den < twice then d + 1
  else if d % 2 = 0 then d else d + 1

/-- The number of decimal digits of `n`, one for zero. -/
def digitCount (n : Nat) : Nat :=
  (Nat.toDigits 10 n).length

/-- A fraction times a power of ten, as a fraction. -/
def scale (num den : Nat) (k : Int) : Nat × Nat :=
  if 0 ≤ k then (num * Nat.pow 10 k.toNat, den) else (num, den * Nat.pow 10 (-k).toNat)

/-- The `x` with `10 ^ x ≤ num / den < 10 ^ (x + 1)`, for a positive fraction. -/
def decimalExponent (num den : Nat) : Int :=
  let guess : Int := (digitCount num : Int) - digitCount den
  let (n, d) := scale num den (-guess)
  if d ≤ n then guess else guess - 1

/-- `m · 2 ^ q` as a fraction. -/
def fraction (m : Nat) (q : Int) : Nat × Nat :=
  if 0 ≤ q then (m * Nat.pow 2 q.toNat, 1) else (m, Nat.pow 2 (-q).toNat)

/-- A positive decimal: `digits · 10 ^ (exponent + 1 - number of digits)`, so that `exponent` is the
place of the leading digit. -/
structure Digits where
  /-- The digits, read as one number. -/
  digits : Nat
  /-- The place of the first of them. -/
  exponent : Int
deriving Repr, DecidableEq

/-- The first `n ≥ 1` significant digits of a positive fraction, correctly rounded. -/
def significant (num den n : Nat) : Digits :=
  let x := decimalExponent num den
  let (a, b) := scale num den (n - 1 - x)
  let d := roundDiv a b
  if d = Nat.pow 10 n then ⟨Nat.pow 10 (n - 1), x + 1⟩ else ⟨d, x⟩

/-- The digits as characters, without zeros at the end. -/
def Digits.chars (d : Digits) : List Char :=
  ((Nat.toDigits 10 d.digits).reverse.dropWhile (· == '0')).reverse

/-- The whole number nearest to a quotient is at most half a unit away from it. -/
theorem roundDiv_near (num den : Nat) (h : 0 < den) :
    2 * (roundDiv num den * den) ≤ 2 * num + den ∧ 2 * num ≤ 2 * (roundDiv num den * den) + den := by
  have hd : den * (num / den) + num % den = num := Nat.div_add_mod num den
  have hm : num % den < den := Nat.mod_lt _ h
  have hc : num / den * den = den * (num / den) := Nat.mul_comm _ _
  have hs : (num / den + 1) * den = den * (num / den) + den := by
    rw [Nat.add_mul, Nat.one_mul, hc]
  unfold roundDiv
  dsimp only
  split
  · rw [hc]; omega
  · split
    · rw [hs]; omega
    · split
      · rw [hc]; omega
      · rw [hs]; omega

end Reckon.Decimal
