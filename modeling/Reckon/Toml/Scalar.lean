import Reckon.Toml.Value

/-!
# Reading TOML scalars

Readers take characters off the front of a text and give what they read with the rest, or nothing if
the text is not as it should be.  The first thing that is wrong ends the reading of a file, so a number
that is too long is told apart from what is no TOML (`Fault`).
-/

namespace Reckon.Toml

/-- Why a text cannot be read. -/
inductive Fault where
  /-- It is no TOML. -/
  | malformed
  /-- A whole number has too many digits. -/
  | tooLong
deriving Repr, DecidableEq

/-- What was read, or that the text is malformed. -/
def orMalformed {α : Type} : Option α → Except Fault α
  | some x => .ok x
  | none => .error .malformed

/-- Blanks within a line. -/
def isSpace (c : Char) : Bool :=
  c == ' ' || c == '\t'

/-- Past blanks within a line. -/
def skipSpace (cs : List Char) : List Char :=
  cs.dropWhile isSpace

/-- Past blanks and newlines. -/
def skipSpaceAndNewlines (cs : List Char) : List Char :=
  cs.dropWhile fun c => isSpace c || c == '\n'

/-- A control character that no text on one line holds. -/
def isControl (c : Char) : Bool :=
  (decide (c.toNat < 32) || c.toNat == 127) && c != '\t'

/-- Past a comment, if one starts here. -/
def skipComment (cs : List Char) : Option (List Char) :=
  match cs with
  | '#' :: r =>
    if (r.takeWhile (· != '\n')).any isControl then none else some (r.dropWhile (· != '\n'))
  | _ => some cs

/-- Past blanks, newlines and comments; `n` bounds the number of comments. -/
def skipArrayGap : Nat → List Char → Option (List Char)
  | 0, cs => some cs
  | n + 1, cs =>
    match skipComment (skipSpaceAndNewlines cs) with
    | none => none
    | some r => if r.length = cs.length then some r else skipArrayGap n r

/-! ## Strings -/

/-- The value of a hexadecimal digit. -/
def hexValue? (c : Char) : Option Nat :=
  if c.isDigit then some (c.toNat - '0'.toNat)
  else if 'a' ≤ c ∧ c ≤ 'f' then some (c.toNat - 'a'.toNat + 10)
  else if 'A' ≤ c ∧ c ≤ 'F' then some (c.toNat - 'A'.toNat + 10)
  else none

/-- The character whose code point the next `n` hexadecimal digits give. -/
def hexChar (n : Nat) (cs : List Char) : Option (List Char × List Char) := do
  let digits := cs.take n
  if digits.length ≠ n then none
  else
    let values ← digits.mapM hexValue?
    let code := values.foldl (fun v d => 16 * v + d) 0
    if code.isValidChar then some ([Char.ofNat code], cs.drop n) else none

/-- What a backslash stands for, with the text after it. -/
def escape (multiline : Bool) (cs : List Char) : Option (List Char × List Char) :=
  match cs with
  | 'b' :: r => some (['\x08'], r)
  | 't' :: r => some (['\t'], r)
  | 'n' :: r => some (['\n'], r)
  | 'f' :: r => some (['\x0c'], r)
  | 'r' :: r => some (['\r'], r)
  | '"' :: r => some (['"'], r)
  | '\\' :: r => some (['\\'], r)
  | 'u' :: r => hexChar 4 r
  | 'U' :: r => hexChar 8 r
  | c :: _ =>
    if multiline && (isSpace c || c == '\n') then
      match skipSpace cs with
      | '\n' :: r => some ([], skipSpaceAndNewlines r)
      | [] => some ([], [])
      | _ => none
    else none
  | [] => none

/-- The rest of a string between double quotes, one or three; `n` bounds its length. -/
def basicString (multiline : Bool) : Nat → List Char → Option (List Char × List Char)
  | 0, _ => none
  | _, [] => none
  | n + 1, '"' :: r =>
    if multiline then
      match r with
      | '"' :: '"' :: rest => some ([], rest)
      | _ => (basicString multiline n r).map fun (s, rest) => ('"' :: s, rest)
    else some ([], r)
  | n + 1, '\\' :: r =>
    match escape multiline r with
    | none => none
    | some (cs, r) => (basicString multiline n r).map fun (s, rest) => (cs ++ s, rest)
  | n + 1, c :: r =>
    if isControl c && !(multiline && c == '\n') then none
    else (basicString multiline n r).map fun (s, rest) => (c :: s, rest)

/-- The rest of a string between single quotes. -/
def literalString (cs : List Char) : Option (List Char × List Char) :=
  let s := cs.takeWhile (· != '\'')
  match cs.dropWhile (· != '\'') with
  | _ :: rest => if s.any isControl then none else some (s, rest)
  | [] => none

/-- The rest of a string between triple single quotes. -/
def multilineLiteral : List Char → Option (List Char × List Char)
  | [] => none
  | '\'' :: '\'' :: '\'' :: rest => some ([], rest)
  | c :: r =>
    if isControl c && c != '\n' then none
    else (multilineLiteral r).map fun (s, rest) => (c :: s, rest)

/-- Up to two more quotes directly after a closing triple belong to the string. -/
def closingQuotes (quote : Char) (read : List Char × List Char) : List Char × List Char :=
  let extra := (read.2.takeWhile (· == quote)).take 2
  (read.1 ++ extra, read.2.drop extra.length)

/-- Past a newline directly after an opening triple. -/
def skipFirstNewline (cs : List Char) : List Char :=
  match cs with
  | '\n' :: r => r
  | cs => cs

/-- A string of one of the four forms. -/
def string? (cs : List Char) : Option (List Char × List Char) :=
  match cs with
  | '"' :: '"' :: '"' :: r =>
    (basicString true (r.length + 1) (skipFirstNewline r)).map (closingQuotes '"')
  | '"' :: r => basicString false (r.length + 1) r
  | '\'' :: '\'' :: '\'' :: r => (multilineLiteral (skipFirstNewline r)).map (closingQuotes '\'')
  | '\'' :: r => literalString r
  | _ => none

/-! ## Numbers -/

/-- More digits, each of which an underscore may come before. -/
def moreDigits (isDigit : Char → Bool) : List Char → List Char × List Char
  | '_' :: c :: r =>
    if isDigit c then
      let (ds, rest) := moreDigits isDigit r
      (c :: ds, rest)
    else ([], '_' :: c :: r)
  | c :: r =>
    if isDigit c then
      let (ds, rest) := moreDigits isDigit r
      (c :: ds, rest)
    else ([], c :: r)
  | [] => ([], [])

/-- At least one digit. -/
def digits? (isDigit : Char → Bool) (cs : List Char) : Option (List Char × List Char) :=
  match cs with
  | c :: r =>
    if isDigit c then
      let (ds, rest) := moreDigits isDigit r
      some (c :: ds, rest)
    else none
  | [] => none

/-- The number that digits write in a base. -/
def digitsValue (base : Nat) (ds : List Char) : Nat :=
  ds.foldl (fun n c => base * n + (hexValue? c).getD 0) 0

/-- A number in base sixteen, two or eight. -/
def radixNumber? (cs : List Char) : Option (Nat × List Char) :=
  match cs with
  | '0' :: 'x' :: r =>
    (digits? (fun c => (hexValue? c).isSome) r).map fun (ds, rest) => (digitsValue 16 ds, rest)
  | '0' :: 'b' :: r =>
    (digits? (fun c => c == '0' || c == '1') r).map fun (ds, rest) => (digitsValue 2 ds, rest)
  | '0' :: 'o' :: r =>
    (digits? (fun c => decide ('0' ≤ c) && decide (c ≤ '7')) r).map fun (ds, rest) =>
      (digitsValue 8 ds, rest)
  | _ => none

/-- A sign, if there is one: whether it is a minus, and the rest. -/
def sign (cs : List Char) : Bool × List Char :=
  match cs with
  | '-' :: r => (true, r)
  | '+' :: r => (false, r)
  | cs => (false, cs)

/-- The whole part of a decimal number, which starts with a zero only if it is one. -/
def wholePart? (cs : List Char) : Option (List Char × List Char) :=
  match cs with
  | '0' :: r => some (['0'], r)
  | cs => digits? Char.isDigit cs

/-- A point and digits, if there are any. -/
def fractionPart (cs : List Char) : List Char × List Char :=
  match cs with
  | '.' :: r => (digits? Char.isDigit r).getD ([], cs)
  | cs => ([], cs)

/-- A power of ten, if there is one. -/
def exponentPart? (cs : List Char) : Option (Int × List Char) :=
  match cs with
  | c :: r =>
    if c == 'e' || c == 'E' then
      let (negative, r) := sign r
      (digits? Char.isDigit r).map fun (ds, rest) =>
        (if negative then -(digitsValue 10 ds : Int) else digitsValue 10 ds, rest)
    else none
  | [] => none

/-- The whole number that decimal digits write. -/
def wholeNumber (negative : Bool) (ds : List Char) : Except Fault Value :=
  if ds.length ≤ maxDigits then
    let n : Int := digitsValue 10 ds
    .ok (.integer (if negative then -n else n))
  else .error .tooLong

/-- A decimal number: what its characters write, and the rest. -/
def decimalNumber? (cs : List Char) : Option (Except Fault Value × List Char) := do
  let (negative, r) := sign cs
  let (whole, r) ← wholePart? r
  let (fraction, r) := fractionPart r
  let power := exponentPart? r
  if fraction.isEmpty && power.isNone then some (wholeNumber negative whole, r)
  else
    let (exponent, r) := power.getD (0, r)
    let x := Decimal.nearest (digitsValue 10 (whole ++ fraction)) (exponent - fraction.length)
    some (.ok (.float (if negative then -x else x)), r)

/-- Infinity and not-a-number. -/
def specialFloat? (cs : List Char) : Option (Value × List Char) :=
  let (negative, r) := sign cs
  match r with
  | 'i' :: 'n' :: 'f' :: rest =>
    let x := Float.ofBits 0x7ff0000000000000
    some (.float (if negative then -x else x), rest)
  | 'n' :: 'a' :: 'n' :: rest => some (.float (Float.ofBits 0x7ff8000000000000), rest)
  | _ => none

/-! ## Dates and times -/

/-- The number that exactly `n` decimal digits write. -/
def exactDigits? (n : Nat) (cs : List Char) : Option (Nat × List Char) :=
  let ds := cs.take n
  if ds.length = n ∧ ds.all Char.isDigit then some (digitsValue 10 ds, cs.drop n) else none

/-- A number of two digits between two bounds. -/
def twoDigits? (low high : Nat) (cs : List Char) : Option (Nat × List Char) := do
  let (n, rest) ← exactDigits? 2 cs
  if low ≤ n ∧ n ≤ high then some (n, rest) else none

/-- A given character. -/
def char? (c : Char) (cs : List Char) : Option (Unit × List Char) :=
  match cs with
  | d :: rest => if d == c then some ((), rest) else none
  | [] => none

/-- The fraction of a second in millionths; digits beyond the sixth count for nothing. -/
def secondFraction (cs : List Char) : Nat × List Char :=
  match cs with
  | '.' :: r =>
    let ds := r.takeWhile Char.isDigit
    if ds.isEmpty then (0, cs)
    else
      let six := ds.take 6
      (digitsValue 10 (six ++ List.replicate (6 - six.length) '0'), r.drop ds.length)
  | cs => (0, cs)

/-- A time of day. -/
def time? (cs : List Char) : Option (Time × List Char) := do
  let (h, r) ← twoDigits? 0 23 cs
  let (_, r) ← char? ':' r
  let (m, r) ← twoDigits? 0 59 r
  let (_, r) ← char? ':' r
  let (s, r) ← twoDigits? 0 59 r
  let (f, r) := secondFraction r
  some (⟨h, m, s, f⟩, r)

/-- Hours and minutes, in minutes. -/
def clockMinutes? (cs : List Char) : Option (Int × List Char) := do
  let (h, r) ← twoDigits? 0 23 cs
  let (_, r) ← char? ':' r
  let (m, r) ← twoDigits? 0 59 r
  some (60 * h + m, r)

/-- The minutes ahead of universal time, if they are given. -/
def ahead (cs : List Char) : Option Int × List Char :=
  match cs with
  | 'Z' :: r | 'z' :: r => (some 0, r)
  | '+' :: r => ((clockMinutes? r).map fun (n, r) => (some n, r)).getD (none, cs)
  | '-' :: r => ((clockMinutes? r).map fun (n, r) => (some (-n), r)).getD (none, cs)
  | cs => (none, cs)

/-- A day written with four, two and two digits. -/
def date? (cs : List Char) : Option (Date × List Char) := do
  let (y, r) ← exactDigits? 4 cs
  let (_, r) ← char? '-' r
  let (m, r) ← twoDigits? 1 12 r
  let (_, r) ← char? '-' r
  let (d, r) ← twoDigits? 1 31 r
  some (⟨y, m, d⟩, r)

/-- The time after a date, if there is one. -/
def timeAfter? (cs : List Char) : Option (Time × List Char) :=
  match cs with
  | c :: r => if c == 'T' || c == 't' || c == ' ' then time? r else none
  | [] => none

/-- What a day is the start of. -/
def fromDate (d : Date) (cs : List Char) : Moment × List Char :=
  match timeAfter? cs with
  | some (t, r) =>
    let (a, r) := ahead r
    (.both d t a, r)
  | none => (.date d, cs)

/-- A scalar that is no string: a truth value, a date or time, or a number. -/
def bareScalar (cs : List Char) : Except Fault (Value × List Char) :=
  match cs with
  | 't' :: 'r' :: 'u' :: 'e' :: r => .ok (.boolean true, r)
  | 'f' :: 'a' :: 'l' :: 's' :: 'e' :: r => .ok (.boolean false, r)
  | cs =>
    match date? cs with
    | some (d, r) =>
      let (m, r) := fromDate d r
      if d.isReal then .ok (.moment m, r) else .error .malformed
    | none =>
      match time? cs with
      | some (t, r) => .ok (.moment (.time t), r)
      | none =>
        match radixNumber? cs with
        | some (n, r) => .ok (.integer n, r)
        | none =>
          match decimalNumber? cs with
          | some (v, r) => v.map (·, r)
          | none => orMalformed (specialFloat? cs)

end Reckon.Toml
