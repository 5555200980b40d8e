/-!
# Doubles as integers times powers of two

A finite double is `± m · 2 ^ q` for a natural number `m < 2 ^ 53` and `q ≥ -1074`.  `Binary.decode`
reads the two off the bits, `Binary.encode` puts them back.  Everything the library does exactly with
doubles (their decimal texts, remainders) is done on `m` and `q`.
-/

namespace Reckon

/-- What the bits of a double say. -/
inductive Binary where
  /-- Not a number. -/
  | nan
  /-- An infinity, with its sign. -/
  | infinite (negative : Bool)
  /-- `± mantissa · 2 ^ exponent`. -/
  | finite (negative : Bool) (mantissa : Nat) (exponent : Int)
deriving Repr, DecidableEq

namespace Binary

/-- Reads the sign, the biased exponent and the fraction. -/
def decode (x : Float) : Binary :=
  let bits : Nat := x.toBits.toNat
  let negative := decide (Nat.pow 2 63 ≤ bits)
  let biased : Nat := bits / Nat.pow 2 52 % Nat.pow 2 11
  let fraction : Nat := bits % Nat.pow 2 52
  if biased = 2047 then
    if fraction = 0 then .infinite negative else .nan
  else if biased = 0 then .finite negative fraction (-1074)
  else .finite negative (Nat.pow 2 52 + fraction) ((biased : Int) - 1075)

/-- The double `± m · 2 ^ q`, for `m < 2 ^ 53`, `-1074 ≤ q` and a magnitude below `2 ^ 1024`. -/
def encode (negative : Bool) (m : Nat) (q : Int) : Float :=
  let sign := if negative then Nat.pow 2 63 else 0
  let shift := min (52 - m.log2) (q + 1074).toNat
  let m' := m * Nat.pow 2 shift
  let magnitude :=
    if m' < Nat.pow 2 52 then m'
    else (q - shift + 1075).toNat * Nat.pow 2 52 + (m' - Nat.pow 2 52)
  Float.ofBits (UInt64.ofNat (sign + magnitude))

end Binary

end Reckon
