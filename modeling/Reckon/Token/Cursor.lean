import Reckon.Error
import Reckon.Token.Scan

/-!
# Cursors and lexing

A cursor stands between two characters of a text and knows how many characters, lines and columns it
has passed.  `next` reads the token after the cursor and moves past it; where no token starts it fails
and stays on the offending character, the blanks before it passed.  `lex` reads all tokens.
-/

namespace Reckon

/-- A place in a text. -/
structure Cursor where
  /-- The characters before the cursor, the nearest first. -/
  before : List Char
  /-- The characters after it. -/
  after : List Char
  /-- How many characters stand before it. -/
  pos : Nat
  /-- The line it is on, from one. -/
  line : Nat
  /-- The column it is at, from one. -/
  col : Nat
deriving Repr, DecidableEq

namespace Cursor

/-- The start of a text. -/
def start (source : List Char) : Cursor :=
  ⟨[], source, 0, 1, 1⟩

/-- Past one character; only a newline starts a line. -/
def step (c : Cursor) : Cursor :=
  match c.after with
  | [] => c
  | x :: r =>
    if x = '\n' then ⟨x :: c.before, r, c.pos + 1, c.line + 1, 1⟩
    else ⟨x :: c.before, r, c.pos + 1, c.line, c.col + 1⟩

/-- Past `n` characters. -/
def advance (c : Cursor) : Nat → Cursor
  | 0 => c
  | n + 1 => c.step.advance n

/-- Past the characters that mean nothing. -/
def skipBlanks (c : Cursor) : Cursor :=
  c.advance (c.after.takeWhile Token.isSkipped).length

/-- The character `offset` places after the one the cursor stands on, or NUL outside the text. -/
def charAt (c : Cursor) (offset : Int) : Char :=
  let found :=
    if 0 ≤ offset then c.after[offset.toNat]?
    else c.before[(-offset - 1).toNat]?
  found.getD '\x00'

/-- A blank that matters to signs in matrix rows. -/
def isGap (c : Char) : Bool :=
  c == ' ' || c == '\t'

/-- The token with the given lexeme between two cursors. -/
def token (file : String) (kind : Token.Kind) (lexeme : List Char) (first last : Cursor) : Token where
  kind := kind
  text := String.ofList lexeme
  span :=
    if kind = .newline then Span.point file first.line first.col
    else ⟨file, first.line, first.col, last.line, (max 1 (last.col - 1) : Nat)⟩
  offset := first.pos
  blankBefore := isGap (first.charAt (-1))
  blankAfter := isGap (last.charAt 0)

/-- The error at a character that starts no token. -/
def unexpected (file : String) (c : Cursor) : Error where
  cause := .unexpectedSymbol (String.singleton (c.charAt 0)) c.pos
  span := some (Span.point file c.line c.col)

/-- Reads the token after the cursor: what was read, and where the cursor is then. -/
def next (file : String) (c : Cursor) : Except Error Token × Cursor :=
  let c := c.skipBlanks
  if c.after.isEmpty then (.ok (token file .eof [] c c), c)
  else
    match Token.scan? c.after with
    | some (lexeme, kind) =>
      let last := c.advance lexeme.length
      (.ok (token file kind lexeme c last), last)
    | none => (.error (c.unexpected file), c)

/-- The token after the cursor, without moving. -/
def peek (file : String) (c : Cursor) : Except Error Token :=
  (c.next file).1

/-- The tokens from the cursor on, `fuel` at most: those before the end or the first failure, how it
ended (with the end-of-input token or an error), and where. -/
def lexFrom (file : String) : Nat → Cursor → List Token × Except Error Token × Cursor
  | 0, c => ([], (c.next file).1, (c.next file).2)
  | fuel + 1, c =>
    match c.next file with
    | (.error e, c') => ([], .error e, c')
    | (.ok t, c') =>
      if t.kind = .eof then ([], .ok t, c')
      else
        let (ts, ending, last) := lexFrom file fuel c'
        (t :: ts, ending, last)

/-- The tokens from the cursor on.  Each one takes at least a character, so there are no more than
characters left. -/
def lex (file : String) (c : Cursor) : List Token × Except Error Token × Cursor :=
  lexFrom file c.after.length c

end Cursor

/-- The tokens of a text up to its end or its first error, and the end or the error. -/
structure TokenStream where
  tokens : List Token
  /-- The end-of-input token, or why there is none. -/
  ending : Except Error Token

namespace TokenStream

/-- The tokens of a text. -/
def ofChars (file : String) (source : List Char) : TokenStream :=
  let (tokens, ending, _) := (Cursor.start source).lex file
  ⟨tokens, ending⟩

/-- All tokens with the end of input last, if there is no error. -/
def complete (s : TokenStream) : Except Error (List Token) :=
  s.ending.map fun t => s.tokens ++ [t]

end TokenStream

/-! ## The cursor moves over the text and nothing else -/

namespace Cursor

@[simp]
theorem advance_zero (c : Cursor) : c.advance 0 = c := rfl

theorem advance_succ (c : Cursor) (n : Nat) : c.advance (n + 1) = c.step.advance n := rfl

theorem advance_add (c : Cursor) (m n : Nat) : c.advance (m + n) = (c.advance m).advance n := by
  induction m generalizing c with
  | zero => simp
  | succ m ih => rw [Nat.succ_add, advance_succ, advance_succ, ih]

theorem step_after (c : Cursor) : c.step.after = c.after.drop 1 := by
  unfold step
  split
  · rename_i h
    simp [h]
  · rename_i x r h
    split <;> simp [h]

@[simp]
theorem advance_after (c : Cursor) (n : Nat) : (c.advance n).after = c.after.drop n := by
  induction n generalizing c with
  | zero => rfl
  | succ n ih => rw [advance_succ, ih, step_after, List.drop_drop, Nat.add_comm]

/-- The characters before and after the cursor are always the same text. -/
theorem step_text (c : Cursor) :
    c.step.before.reverse ++ c.step.after = c.before.reverse ++ c.after := by
  unfold step
  split
  · rfl
  · rename_i x r h
    split <;> simp [h]

theorem advance_text (c : Cursor) (n : Nat) :
    (c.advance n).before.reverse ++ (c.advance n).after = c.before.reverse ++ c.after := by
  induction n generalizing c with
  | zero => rfl
  | succ n ih => rw [advance_succ, ih, step_text]

theorem skipBlanks_after (c : Cursor) :
    c.skipBlanks.after = c.after.dropWhile Token.isSkipped := by
  rw [skipBlanks, advance_after]
  generalize c.after = cs
  induction cs with
  | nil => rfl
  | cons x r ih =>
    by_cases h : Token.isSkipped x = true
    · rw [List.takeWhile_cons_of_pos h, List.dropWhile_cons_of_pos h, List.length_cons,
        List.drop_succ_cons, ih]
    · rw [List.takeWhile_cons_of_neg h, List.dropWhile_cons_of_neg h]
      rfl

/-- Looking ahead and then reading gives what was seen. -/
theorem peek_eq_next (file : String) (c : Cursor) : c.peek file = (c.next file).1 := rfl

end Cursor

end Reckon
