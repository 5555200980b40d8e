import Reckon.Bindings
import Reckon.Decimal.Text
import Reckon.Text.Quoted
import Reckon.Toml.Moment

/-!
# TOML values

A settings file is TOML.  Its values are scalars, arrays and tables; the keys of a table keep the
order of the file.  A whole number of very many decimal digits is neither read nor shown
(`maxDigits`).
-/

namespace Reckon.Toml

/-- A TOML value. -/
inductive Value where
  | string (s : String)
  | integer (n : Int)
  | float (x : Float)
  | boolean (b : Bool)
  /-- A date, a time, or both. -/
  | moment (m : Moment)
  | array (items : List Value)
  | table (entries : List (String × Value))

/-- Keys with their values, in the order of the file. -/
abbrev Table := Bindings Value

/-- The most decimal digits that a whole number is read or shown with. -/
def maxDigits : Nat := 4300

namespace Value

mutual

/-- How a value is written inside another one; nothing if a number in it is too long. -/
def inner? : Value → Option String
  | string s => some (Text.quote s)
  | integer n => if Decimal.digitCount n.natAbs ≤ maxDigits then some (toString n) else none
  | float x => some (Decimal.exact x)
  | boolean b => some (if b then "True" else "False")
  | moment m => some m.call
  | array items => (inners? items).map fun texts => "[" ++ ", ".intercalate texts ++ "]"
  | table entries =>
    (innerEntries? entries).map fun texts => "\x7b" ++ ", ".intercalate texts ++ "\x7d"

/-- How several values are written. -/
def inners? : List Value → Option (List String)
  | [] => some []
  | v :: rest => do
    let text ← inner? v
    let texts ← inners? rest
    return text :: texts

/-- How the entries of a table are written. -/
def innerEntries? : List (String × Value) → Option (List String)
  | [] => some []
  | (k, v) :: rest => do
    let text ← inner? v
    let texts ← innerEntries? rest
    return (Text.quote k ++ ": " ++ text) :: texts

end

/-- How a value is shown on its own: a string as it stands, a moment in the usual notation; nothing if
a number in it is too long. -/
def text? : Value → Option String
  | string s => some s
  | moment m => some m.text
  | v => inner? v

/-- Whether the value stands for yes: not zero and not empty. -/
def isTruthy : Value → Bool
  | string s => s != ""
  | integer n => n != 0
  | float x => !(x == 0)
  | boolean b => b
  | moment _ => true
  | array items => !items.isEmpty
  | table entries => !entries.isEmpty

end Value

/-! ## Tables inside tables -/

/-- What stands at the end of a path of keys from a table is replaced by what `f` makes of it.  Tables
missing on the way are created; in an array of tables the way goes through the last one, if
`throughArrays`; anything else on the way blocks it. -/
def Table.update? (throughArrays : Bool) (t : Table) (f : Table → Option Table) :
    List String → Option Table
  | [] => f t
  | k :: path =>
    match t.get? k with
    | none => (update? throughArrays [] f path).map fun inner => t.set k (.table inner)
    | some (.table inner) =>
      (update? throughArrays inner f path).map fun inner => t.set k (.table inner)
    | some (.array items) =>
      if throughArrays then
        match items.getLast? with
        | some (.table inner) =>
          (update? throughArrays inner f path).map fun inner =>
            t.set k (.array (items.dropLast ++ [.table inner]))
        | _ => none
      else none
    | some _ => none

/-- A new key at the end of a path. -/
def Table.insertAt? (throughArrays : Bool) (t : Table) (path : List String) (key : String)
    (value : Value) : Option Table :=
  t.update? throughArrays
    (fun inner => if (inner.get? key).isSome then none else some (inner.set key value)) path

/-- An empty table added to the array at a path, which is created if it is missing. -/
def Table.appendAt? (t : Table) (path : List String) (key : String) : Option Table :=
  t.update? true
    (fun inner =>
      match inner.get? key with
      | none => some (inner.set key (.array [.table []]))
      | some (.array items) => some (inner.set key (.array (items ++ [.table []])))
      | some _ => none)
    path

end Reckon.Toml
