import Reckon.Toml.Scalar

/-!
# Reading TOML documents

A document is read line by line.  Besides the tables read so far the reader keeps what may no longer be
touched: arrays and tables written inline are closed with everything in them, and a table can be opened
by a header once.
-/

namespace Reckon.Toml

/-! ## Keys -/

/-- A character of a key without quotes. -/
def isBareKeyChar (c : Char) : Bool :=
  c.isAlphanum || c == '-' || c == '_'

/-- One part of a key. -/
def keyPart? (cs : List Char) : Option (String × List Char) :=
  match cs with
  | '\'' :: r => (literalString r).map fun (s, rest) => (String.ofList s, rest)
  | '"' :: r => (basicString false (r.length + 1) r).map fun (s, rest) => (String.ofList s, rest)
  | cs =>
    let part := cs.takeWhile isBareKeyChar
    if part.isEmpty then none else some (String.ofList part, cs.dropWhile isBareKeyChar)

/-- A key: parts with dots between them, `n` at most. -/
def key? : Nat → List Char → Option (List String × List Char)
  | 0, _ => none
  | n + 1, cs => do
    let (part, r) ← keyPart? cs
    match skipSpace r with
    | '.' :: r =>
      let (parts, r) ← key? n (skipSpace r)
      some (part :: parts, r)
    | r => some ([part], r)

/-- A key and what stands after its equals sign. -/
def keyAndRest? (cs : List Char) : Option (List String × List Char) := do
  let (key, r) ← key? (cs.length + 1) cs
  match r with
  | '=' :: r => some (key, skipSpace r)
  | _ => none

/-! ## Closed places -/

/-- Why a place may not be touched. -/
inductive Seal where
  /-- Written inline: closed, and everything in it. -/
  | frozen
  /-- Opened by a header, or on the way of a dotted key: not to be opened again. -/
  | opened
deriving Repr, DecidableEq

/-- Closed places with the reasons. -/
abbrev Seals := List (List String × Seal)

namespace Seals

/-- The place is closed for this reason. -/
def holds (s : Seals) (key : List String) (reason : Seal) : Bool :=
  s.any fun (path, why) =>
    why == reason &&
      match why with
      | .frozen => path.isPrefixOf key
      | .opened => path == key

/-- A place and everything in it is open again. -/
def release (s : Seals) (key : List String) : Seals :=
  s.filter fun (path, _) => !key.isPrefixOf path

end Seals

/-! ## Values -/

/-- The entries of an inline table that have been read. -/
structure InlineTable where
  table : Table := []
  seals : Seals := []

/-- Adds an entry to an inline table. -/
def InlineTable.add (t : InlineTable) (key : List String) (value : Value) : Option InlineTable := do
  if t.seals.holds key .frozen then none
  else
    let table ← t.table.insertAt? false key.dropLast (key.getLastD "") value
    let closes := match value with
      | .array _ | .table _ => true
      | _ => false
    some { table := table, seals := if closes then (key, .frozen) :: t.seals else t.seals }

mutual

/-- A value, nested at most `n` deep. -/
def value : Nat → List Char → Except Fault (Value × List Char)
  | 0, _ => .error .malformed
  | n + 1, cs =>
    match cs with
    | '"' :: _ | '\'' :: _ => do
      let (s, rest) ← orMalformed (string? cs)
      return (.string (String.ofList s), rest)
    | '[' :: r => do
      let r ← orMalformed (skipArrayGap (r.length + 1) r)
      match r with
      | ']' :: rest => return (.array [], rest)
      | r =>
        let (vs, rest) ← items n r
        return (.array vs, rest)
    | '\x7b' :: r =>
      match skipSpace r with
      | '\x7d' :: rest => return (.table [], rest)
      | r => do
        let (t, rest) ← entries n {} r
        return (.table t.table, rest)
    | cs => bareScalar cs

/-- The items of an array up to its closing bracket. -/
def items : Nat → List Char → Except Fault (List Value × List Char)
  | 0, _ => .error .malformed
  | n + 1, cs => do
    let (v, r) ← value n cs
    let r ← orMalformed (skipArrayGap (r.length + 1) r)
    match r with
    | ']' :: rest => return ([v], rest)
    | ',' :: r =>
      let r ← orMalformed (skipArrayGap (r.length + 1) r)
      match r with
      | ']' :: rest => return ([v], rest)
      | r =>
        let (vs, rest) ← items n r
        return (v :: vs, rest)
    | _ => throw .malformed

/-- The entries of an inline table up to its closing brace. -/
def entries : Nat → InlineTable → List Char → Except Fault (InlineTable × List Char)
  | 0, _, _ => .error .malformed
  | n + 1, t, cs => do
    let (key, r) ← orMalformed (keyAndRest? cs)
    let (v, r) ← value n r
    let t ← orMalformed (t.add key v)
    match skipSpace r with
    | '\x7d' :: rest => return (t, rest)
    | ',' :: r => entries n t (skipSpace r)
    | _ => throw .malformed

end

/-! ## Lines -/

/-- A document in the middle of being read. -/
structure Document where
  table : Table := []
  seals : Seals := []
  /-- Places that the next header seals. -/
  pending : List (List String) := []
  /-- The table that keys go into. -/
  header : List String := []

namespace Document

/-- The ways to the table of a dotted key, shorter ones first. -/
def waypoints (header key : List String) : List (List String) :=
  (List.range (key.length - 1)).map fun i => header ++ key.take (i + 1)

/-- Adds a key with its value. -/
def addKey (d : Document) (key : List String) (v : Value) : Option Document := do
  let ways := waypoints d.header key
  let parent := d.header ++ key.dropLast
  if ways.any fun w => d.seals.holds w .opened then none
  else if d.seals.holds parent .frozen then none
  else
    let table ← d.table.insertAt? true parent (key.getLastD "") v
    let closes := match v with
      | .array _ | .table _ => true
      | _ => false
    some { d with
      table := table
      pending := ways ++ d.pending
      seals := if closes then (d.header ++ key, .frozen) :: d.seals else d.seals }

/-- Seals what was waiting for a header. -/
def settle (d : Document) : Document :=
  { d with seals := d.pending.map (·, .opened) ++ d.seals, pending := [] }

/-- Opens a table. -/
def openTable (d : Document) (key : List String) : Option Document := do
  if d.seals.holds key .opened || d.seals.holds key .frozen then none
  else
    let table ← d.table.update? true some key
    some { d with table := table, seals := (key, .opened) :: d.seals, header := key }

/-- Opens another table of an array. -/
def openArray (d : Document) (key : List String) : Option Document := do
  if d.seals.holds key .frozen then none
  else
    let table ← d.table.appendAt? key.dropLast (key.getLastD "")
    some { d with table := table, seals := (key, .opened) :: d.seals.release key, header := key }

/-- A header, up to its closing brackets. -/
def headerLine? (d : Document) (cs : List Char) : Option (Document × List Char) :=
  match cs with
  | '[' :: '[' :: r => do
    let (key, r) ← key? (r.length + 1) (skipSpace r)
    let d ← d.settle.openArray key
    match r with
    | ']' :: ']' :: rest => some (d, rest)
    | _ => none
  | '[' :: r => do
    let (key, r) ← key? (r.length + 1) (skipSpace r)
    let d ← d.settle.openTable key
    match r with
    | ']' :: rest => some (d, rest)
    | _ => none
  | _ => none

/-- The head of a line, up to what may follow it: a header or a key with its value. -/
def lineHead (d : Document) (cs : List Char) : Except Fault (Document × List Char) :=
  match cs with
  | '[' :: _ => orMalformed (d.headerLine? cs)
  | '#' :: _ | '\n' :: _ | [] => .ok (d, cs)
  | cs => do
    let (key, r) ← orMalformed (keyAndRest? cs)
    let (v, r) ← value (r.length + 1) r
    let d ← orMalformed (d.addKey key v)
    return (d, r)

/-- Reads lines, `n` at most. -/
def readLines : Nat → Document → List Char → Except Fault Document
  | 0, _, _ => .error .malformed
  | n + 1, d, cs => do
    let (d, r) ← d.lineHead (skipSpace cs)
    match ← orMalformed (skipComment (skipSpace r)) with
    | [] => return d
    | '\n' :: rest => readLines n d rest
    | _ => throw .malformed

end Document

/-- A line end of two characters becomes a newline. -/
def unifyLineEnds : List Char → List Char
  | [] => []
  | '\r' :: '\n' :: r => '\n' :: unifyLineEnds r
  | c :: r => c :: unifyLineEnds r

/-- The table that a document is. -/
def parse (source : String) : Except Fault Table :=
  let cs := unifyLineEnds source.toList
  (Document.readLines (cs.length + 1) {} cs).map Document.table

end Reckon.Toml
