/-!
# Lines of a text

Two readings of "line" are in use.  A diagnostic shows lines as an editor does: `splitLines` ends
one at every line boundary Unicode knows.  Input is read by newlines alone: `newlineSplit` cuts
there, after `unifyNewlines` has turned the other two conventions for a line end into a newline.
-/

namespace Reckon.Text

/-- The character ends a line on the screen. -/
def isLineEnd (c : Char) : Bool :=
  [10, 11, 12, 13, 28, 29, 30, 133, 8232, 8233].contains c.toNat

/-- The lines of a text of which `line` has been read back to front. -/
def splitLinesFrom (line : List Char) : List Char → List (List Char)
  | [] => if line.isEmpty then [] else [line.reverse]
  | '\r' :: '\n' :: r => line.reverse :: splitLinesFrom [] r
  | c :: r => if isLineEnd c then line.reverse :: splitLinesFrom [] r else splitLinesFrom (c :: line) r

/-- The lines of a text as shown on a screen, without their ends. -/
def splitLines (s : String) : List String :=
  (splitLinesFrom [] s.toList).map String.ofList

/-- Every line end becomes a newline. -/
def unifyNewlines : List Char → List Char
  | [] => []
  | '\r' :: '\n' :: r => '\n' :: unifyNewlines r
  | c :: r => (if c == '\r' then '\n' else c) :: unifyNewlines r

/-- The pieces between newlines, of a text of which `line` has been read back to front.  After a
last newline no further line begins. -/
def newlineSplitFrom (line : List Char) : List Char → List (List Char)
  | [] => if line.isEmpty then [] else [line.reverse]
  | c :: r =>
    if c == '\n' then line.reverse :: newlineSplitFrom [] r else newlineSplitFrom (c :: line) r

/-- The input lines of a text, without their newlines. -/
def newlineSplit (cs : List Char) : List (List Char) :=
  newlineSplitFrom [] cs

/-- Texts joined with a newline between two. -/
def joinLines (lines : List String) : String :=
  "\n".intercalate lines

end Reckon.Text
