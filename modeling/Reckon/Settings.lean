import Reckon.FileTree
import Reckon.Text.Blank
import Reckon.Text.Digit
import Reckon.Toml.Document

/-!
# Settings

Settings come from a TOML file in the working directory or the nearest directory above it that has one.
Each entry is taken for what it can be taken for: a text for its characters where a list is wanted, a
text that writes a whole number for that number, anything for yes or no.  What cannot be taken so is a
fault.
-/

namespace Reckon

/-- The settings of a command. -/
structure Settings where
  /-- The lines that end a program. -/
  sentinels : List Toml.Value := [.string "done", .string "quit"]
  /-- What is shown before each line. -/
  prompt : Toml.Value := .string ">> "
  /-- How many significant digits numbers are shown with. -/
  precision : Int := Decimal.defaultPrecision
  color : Bool := true

/-- Why there are no settings. -/
inductive Settings.Fault where
  /-- The file is no TOML. -/
  | notToml
  /-- A section is no table. -/
  | notTable
  /-- An entry is of a kind that cannot be used. -/
  | wrongKind
  /-- A text or a number does not write a whole number, or one that is too long. -/
  | notWhole
  /-- A number is infinite. -/
  | infinite
  /-- A directory has the name of the file. -/
  | isDirectory
  /-- There is no file. -/
  | missing
deriving Repr, DecidableEq

namespace Settings

/-- The name of a settings file. -/
def fileName : String := "mathscript.toml"

/-! ## Taking a value for something -/

/-- A value taken for a list. -/
def asList : Toml.Value → Except Fault (List Toml.Value)
  | .string s => .ok (s.toList.map fun c => .string (String.singleton c))
  | .array items => .ok items
  | .table entries => .ok (entries.map fun e => .string e.1)
  | _ => .error .wrongKind

/-- Digits of any script, a single underscore allowed between two. -/
def digitsValue? : Nat → List Char → Option Nat
  | acc, [] => some acc
  | acc, '_' :: c :: r =>
    match Text.digitValue? c with
    | some d => digitsValue? (10 * acc + d) r
    | none => none
  | acc, c :: r =>
    match Text.digitValue? c with
    | some d => digitsValue? (10 * acc + d) r
    | none => none

/-- The natural number that a text starting with a digit writes, unless it is too long. -/
def natural? (cs : List Char) : Option Nat :=
  match cs with
  | c :: r =>
    if (cs.filter (· != '_')).length ≤ Toml.maxDigits then
      (Text.digitValue? c).bind fun d => digitsValue? d r
    else none
  | [] => none

/-- The whole number that a text writes, with white space around it and a sign allowed. -/
def whole? (s : String) : Option Int :=
  match Text.trimWith Text.isWhiteSpace s.toList with
  | '-' :: r => (natural? r).map fun n => -(n : Int)
  | '+' :: r => (natural? r).map Int.ofNat
  | cs => (natural? cs).map Int.ofNat

/-- A number cut off toward zero. -/
def truncated (x : Float) : Except Fault Int :=
  match Binary.decode x with
  | .nan => .error .notWhole
  | .infinite _ => .error .infinite
  | .finite negative m q =>
    let n : Nat := if 0 ≤ q then m * Nat.pow 2 q.toNat else m / Nat.pow 2 (-q).toNat
    .ok (if negative then -(n : Int) else n)

/-- A value taken for a whole number. -/
def asInt : Toml.Value → Except Fault Int
  | .integer n => .ok n
  | .boolean b => .ok (if b then 1 else 0)
  | .float x => truncated x
  | .string s =>
    match whole? s with
    | some n => .ok n
    | none => .error .notWhole
  | _ => .error .wrongKind

/-! ## Reading -/

/-- A section of a document, if it has it. -/
def section? (t : Toml.Table) (name : String) : Except Fault (Option Toml.Table) :=
  match t.get? name with
  | none => .ok none
  | some (.table inner) => .ok (some inner)
  | some _ => .error .notTable

/-- The settings with the entries of the section about input. -/
def readInput (s : Settings) (t : Toml.Table) : Except Fault Settings := do
  let sentinels ← match t.get? "sentinels" with
    | some v => asList v
    | none => .ok s.sentinels
  return { s with sentinels := sentinels, prompt := (t.get? "prompt").getD s.prompt }

/-- The settings with the entries of the section about output. -/
def readOutput (s : Settings) (t : Toml.Table) : Except Fault Settings := do
  let precision ← match t.get? "precision" with
    | some v => asInt v
    | none => .ok s.precision
  let color := match t.get? "color" with
    | some v => v.isTruthy
    | none => s.color
  return { s with precision := precision, color := color }

/-- The settings that a file holds. -/
def parse (source : String) : Except Fault Settings := do
  match Toml.parse source with
  | .error .malformed => .error .notToml
  | .error .tooLong => .error .notWhole
  | .ok doc =>
    let s : Settings := {}
    let s ← match ← section? doc "repl" with
      | some t => s.readInput t
      | none => .ok s
    match ← section? doc "output" with
      | some t => s.readOutput t
      | none => .ok s

/-! ## Finding -/

/-- The path of the settings file for a place, which is a file or a directory. -/
def find (t : FileTree) (start : String) : Except Fault Path :=
  let p := t.resolve start
  let dir := if (t.file? p).isSome then p.dropLast else p
  match t.findUpward? fileName dir with
  | some found => .ok found
  | none => .error .missing

/-- The settings in the file at a path. -/
def load (t : FileTree) (p : Path) : Except Fault Settings :=
  match t.file? p with
  | some source => parse source
  | none => .error (if t.isDirectory p then .isDirectory else .missing)

/-- The settings for a place: those of its file, or the usual ones if there is none. -/
def discover (t : FileTree) (start : String) : Except Fault Settings :=
  match (find t start).bind (load t) with
  | .error .missing => .ok {}
  | r => r

end Settings

end Reckon
