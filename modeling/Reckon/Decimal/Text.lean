import Reckon.Decimal.Binary
import Reckon.Decimal.Shortest

/-!
# Decimal texts of doubles

A double is written with its digits either in place or before a power of ten.  `Layout` says which,
and two layouts are in use: `general p`, the value rounded to `p` significant digits, for what is
shown to a reader, and `exact`, the shortest text that reads back, for what names a literal.
-/

namespace Reckon.Decimal

/-- How digits become text. -/
structure Layout where
  /-- The first exponent that is written as a power of ten. -/
  scientificFrom : Int
  /-- A whole number in place keeps a point and a zero. -/
  keepPoint : Bool

/-- The least exponent whose digits are written in place. -/
def leastPlain : Int := -4

/-- A power of ten, with its sign and at least two digits. -/
def powerText (x : Int) : List Char :=
  let ds := Nat.toDigits 10 x.natAbs
  'e' :: (if x < 0 then '-' else '+') :: (if ds.length < 2 then '0' :: ds else ds)

/-- Digits (without zeros at the end) with the first of them at place `x`. -/
def Layout.write (l : Layout) (ds : List Char) (x : Int) : List Char :=
  if x < leastPlain ∨ l.scientificFrom ≤ x then
    (match ds with
      | [] => []
      | [d] => [d]
      | d :: r => d :: '.' :: r) ++ powerText x
  else if x < 0 then
    '0' :: '.' :: (List.replicate (-x - 1).toNat '0' ++ ds)
  else
    let whole := x.toNat + 1
    let front := ds.take whole ++ List.replicate (whole - ds.length) '0'
    let back := ds.drop whole
    if back.isEmpty then front ++ (if l.keepPoint then ['.', '0'] else [])
    else front ++ '.' :: back

/-- A sign before a text. -/
def signed (negative : Bool) (cs : List Char) : List Char :=
  if negative then '-' :: cs else cs

/-- The text of a double, its digits found by `digitsOf`. -/
def Layout.text (l : Layout) (digitsOf : Nat → Int → Digits) (x : Float) : String :=
  String.ofList <|
    match Binary.decode x with
    | .nan => ['n', 'a', 'n']
    | .infinite negative => signed negative ['i', 'n', 'f']
    | .finite negative 0 _ => signed negative (l.write ['0'] 0)
    | .finite negative m q =>
      let d := digitsOf m q
      signed negative (l.write d.chars d.exponent)

/-- No double has more significant digits than this, so further ones are zeros. -/
def digitsEnough : Nat := 800

/-- The value rounded to `p` significant digits (one, if `p` is zero). -/
def general (p : Nat) (x : Float) : String :=
  let p := max p 1
  let digits m q :=
    let (num, den) := fraction m q
    significant num den (min p digitsEnough)
  Layout.text ⟨p, false⟩ digits x

/-- The shortest text that reads back as the same double. -/
def exact (x : Float) : String :=
  Layout.text ⟨16, true⟩ shortest x

/-- The number of digits shown where none is asked for. -/
def defaultPrecision : Nat := 6

/-- The value as messages show it. -/
def brief (x : Float) : String :=
  general defaultPrecision x

/-- The double nearest to `digits · 10 ^ power`.  Far outside the range of doubles the answer is
known without the arithmetic. -/
def nearest (digits : Nat) (power : Int) : Float :=
  let top := power + digitCount digits
  if digits = 0 ∨ top < -400 then 0.0
  else if 400 < top then Float.ofBits 0x7ff0000000000000
  else if 0 ≤ power then Float.ofScientific digits false power.toNat
  else Float.ofScientific digits true (-power).toNat

end Reckon.Decimal
