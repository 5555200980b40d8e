import Reckon.Decimal.Text
import Reckon.Source.Span
import Reckon.Token.Kind

/-!
# Tokens

A token keeps the text it was read from and where that text stands.  It also keeps whether a space
or a tab stands directly before and after it: inside a matrix row that decides whether a sign joins
two numbers or belongs to the second.
-/

namespace Reckon

/-- A token of a source text. -/
structure Token where
  kind : Token.Kind
  /-- The characters of the token; empty at the end of input. -/
  text : String
  span : Span
  /-- How many characters of the source stand before it. -/
  offset : Nat
  /-- A space or a tab stands directly before it. -/
  blankBefore : Bool := false
  /-- A space or a tab stands directly after it. -/
  blankAfter : Bool := false
deriving Repr, DecidableEq, Inhabited

namespace Token

/-- The number written by a row of digits with at most one point among them. -/
def numeralValue (cs : List Char) : Float :=
  let whole := cs.takeWhile (· != '.')
  let fraction := (cs.dropWhile (· != '.')).drop 1
  let digits := (whole ++ fraction).foldl (fun n c => 10 * n + (c.toNat - '0'.toNat)) 0
  Decimal.nearest digits (-fraction.length)

/-- The value of a numeral. -/
def value (t : Token) : Float :=
  numeralValue t.text.toList

/-- How a message calls the token. -/
def describe (t : Token) : String :=
  match t.kind with
  | .number => "number " ++ Decimal.brief t.value
  | .identifier | .reservedValue => "'" ++ t.text ++ "'"
  | k => k.describe

/-- How a listing shows what the token holds. -/
def shown (t : Token) : String :=
  if t.kind = .number then Decimal.exact t.value else Text.quote t.text

/-- A sign in a matrix row joins its two neighbours, unless it is set apart from the left one and
touches the right one. -/
def joinsNeighbours (t : Token) : Bool :=
  t.blankAfter || !t.blankBefore

end Token

end Reckon
