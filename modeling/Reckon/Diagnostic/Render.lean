import Reckon.Bindings
import Reckon.Diagnostic.Basic
import Reckon.FileTree
import Reckon.Text.Lines

/-!
# Rendering diagnostics

A rendered diagnostic is a list of lines, each a list of pieces, some of them with a style.  Whether
styles are written is decided in one place (`Piece.text`), so that colour changes nothing but colour.
A label shows its place, the line it is on, and carets under the columns it covers, unless it spans
several lines.

Source lines come from texts registered under a file's name; any other file is read once and
remembered, with no lines if it cannot be read.
-/

namespace Reckon

/-- Ways to set off a piece of text. -/
inductive Style where
  /-- What went wrong, and where. -/
  | alert
  /-- The message. -/
  | strong
  /-- The frame around a source line. -/
  | border
deriving Repr, DecidableEq

/-- The terminal sequence that starts a style. -/
def Style.code : Style → String
  | alert => "\x1b[1;31m"
  | strong => "\x1b[1m"
  | border => "\x1b[1;34m"

/-- The terminal sequence that ends any style. -/
def Style.reset : String := "\x1b[0m"

/-- A piece of a line. -/
inductive Piece where
  | plain (s : String)
  | styled (style : Style) (s : String)
deriving Repr, DecidableEq

/-- A piece as text, with its style or without. -/
def Piece.text (color : Bool) : Piece → String
  | plain s => s
  | styled style s => if color then style.code ++ s ++ Style.reset else s

/-- A line as text. -/
def Piece.line (color : Bool) (pieces : List Piece) : String :=
  String.join (pieces.map (Piece.text color))

/-- A count as a number of characters; negative counts are none. -/
def repeated (c : Char) (n : Int) : String :=
  String.ofList (List.replicate n.toNat c)

/-- A text moved to the right end of `width` columns. -/
def rightAligned (width : Nat) (s : String) : String :=
  repeated ' ' (width - s.length : Int) ++ s

/-- Texts of source files, as lines, by the files' names. -/
abbrev Sources := Bindings (List String)

/-- The line of a number, counted from one. -/
def Sources.line? (s : Sources) (file : String) (line : Int) : Option String :=
  if 1 ≤ line then ((s.get? file).getD [])[(line - 1).toNat]? else none

/-! ## The lines of a diagnostic -/

namespace Diagnostic

/-- The columns left of every source line, for lines without a number. -/
def margin : List Piece :=
  [.plain "  ", .styled .border "   |"]

/-- The place of a label. -/
def placeLine (l : Label) : List Piece :=
  [.plain "  ", .styled .border "-->", .plain (" " ++ l.span.position)]

/-- The source line of a label. -/
def sourceLine (l : Label) (text : String) : List Piece :=
  [.plain "  ", .styled .border (rightAligned 4 (toString l.span.startLine) ++ " |"),
    .plain (" " ++ text)]

/-- The carets under the columns of a label, at least one. -/
def caretLine (l : Label) : List Piece :=
  margin ++ [.plain (" " ++ repeated ' ' (l.span.startCol - 1)),
    .styled .alert (repeated '^' (max 1 (l.span.endCol - l.span.startCol + 1)))]

/-- What a label says. -/
def messageLine (l : Label) : List Piece :=
  margin ++ [.plain "   ", .styled .alert l.message]

/-- The lines of a label. -/
def labelLines (sources : Sources) (l : Label) : List (List Piece) :=
  [placeLine l, margin]
    ++ ((sources.line? l.span.file l.span.startLine).toList.map (sourceLine l))
    ++ (if l.span.startLine = l.span.endLine then [caretLine l] else [])
    ++ (if l.message = "" then [] else [messageLine l])

/-- The first line: how serious, which code, what message. -/
def headLine (d : Diagnostic) : List Piece :=
  [.styled .alert (severity ++ "[" ++ d.code ++ "]"), .styled .strong (": " ++ d.message)]

/-- A note. -/
def noteLine (note : String) : List Piece :=
  [.plain "  ", .styled .border "=", .plain (" note: " ++ note)]

/-- All lines of a diagnostic. -/
def lines (d : Diagnostic) (sources : Sources) : List (List Piece) :=
  headLine d :: (d.labels.flatMap (labelLines sources) ++ d.notes.map noteLine)

/-- The diagnostic as text. -/
def text (d : Diagnostic) (color : Bool) (sources : Sources) : String :=
  Text.joinLines ((d.lines sources).map (Piece.line color))

end Diagnostic

/-! ## Rendering several diagnostics -/

/-- Renders diagnostics, with or without colour, and remembers the sources they point into. -/
structure Renderer where
  color : Bool := true
  sources : Sources := []

namespace Renderer

/-- Makes a text known under a name. -/
def register (r : Renderer) (file source : String) : Renderer :=
  { r with sources := r.sources.set file (Text.splitLines source) }

/-- Makes a file known, unless something is known under its name. -/
def load (files : FileTree) (r : Renderer) (file : String) : Renderer :=
  match r.sources.get? file with
  | some _ => r
  | none => r.register file ((files.readTidy? file).getD "")

/-- The diagnostic as text, and the renderer with the files it has read. -/
def render (r : Renderer) (files : FileTree) (d : Diagnostic) : String × Renderer :=
  let r := d.labels.foldl (fun r l => r.load files l.span.file) r
  (d.text r.color r.sources, r)

end Renderer

end Reckon
