import Reckon.Proofs.Lexing.Lossless

/-!
# Looking ahead

A reader of a text is asked for tokens and for characters, in any order: `next` reads a token, `peek` looks
at the token that comes next, `char` at a character near the cursor.  To look at a token is to read it and
to go back to the place where the cursor stood (`Cursor.seek`), whatever was read there.

Only `next` moves the cursor, so all that was asked before shows in one number: how many tokens have been
read (`Cursor.Counts.session_cursor`).  With `k` read the next one is the `k`-th of the text (`TokenStream.nth`),
and behind the last one the end of input or the error comes again and again, as reading leaves the cursor
where it failed (`Cursor.next_again`).
-/

namespace Reckon

namespace TokenStream

/-- The `k`-th thing to be read: a token, and behind the last one always how the text ends. -/
def nth (s : TokenStream) (k : Nat) : Except Error Token :=
  match s.tokens[k]? with
  | some t => .ok t
  | none => s.ending

/-- All that is read up to the end or the error. -/
def outcomes (s : TokenStream) : List (Except Error Token) :=
  s.tokens.map .ok ++ [s.ending]

end TokenStream

/-- What a reader is asked for. -/
inductive Request where
  /-- The next token, to be passed. -/
  | next
  /-- The next token, to be looked at. -/
  | peek
  /-- The character this many places after the cursor. -/
  | char (offset : Int)
deriving Repr, DecidableEq

/-- What it answers. -/
inductive Reply where
  | token (outcome : Except Error Token)
  | char (c : Char)

/-- The character of a text at an index, or NUL outside of it. -/
def Text.charAt (source : List Char) (i : Int) : Char :=
  if 0 ≤ i then source.getD i.toNat '\x00' else '\x00'

namespace Cursor

/-- At another place of the same text. -/
def seek (c : Cursor) (pos line col : Nat) : Cursor :=
  let source := c.before.reverse ++ c.after
  ⟨(source.take pos).reverse, source.drop pos, pos, line, col⟩

/-- One request answered. -/
def serve (file : String) (c : Cursor) : Request → Reply × Cursor
  | .next => ((c.next file).map .token id)
  | .peek => ((c.next file).map .token fun d => d.seek c.pos c.line c.col)
  | .char offset => (.char (c.charAt offset), c)

/-- Requests answered in order. -/
def session (file : String) (c : Cursor) : List Request → List (Request × Reply) × Cursor
  | [] => ([], c)
  | r :: rs =>
    let (reply, d) := c.serve file r
    let (replies, e) := d.session file rs
    ((r, reply) :: replies, e)

/-- Past `k` tokens. -/
def passed (file : String) (c : Cursor) : Nat → Cursor
  | 0 => c
  | k + 1 => (c.next file).2.passed file k

/-- What a stream of tokens gives when it is asked for one more, and what is left of it.  Nothing is left
behind the end of input and behind an error. -/
def resume (file : String) : Option Cursor → Option (Except Error Token) × Option Cursor
  | none => (none, none)
  | some c =>
    match c.next file with
    | (.error e, _) => (some (.error e), none)
    | (.ok t, d) => (some (.ok t), if t.kind = .eof then none else some d)

/-- What it gives when it is asked `n` times. -/
def drawn (file : String) : Nat → Option Cursor → List (Except Error Token)
  | 0, _ => []
  | n + 1, c => (resume file c).1.toList ++ drawn file n (resume file c).2

variable {file : String} {source : List Char} {c d : Cursor}

/-! ## One request -/

theorem Counts.next (h : Counts source c) : Counts source (c.next file).2 := by
  rcases next_cases file c with ⟨-, he⟩ | ⟨lexeme, kind, -, he⟩ | ⟨-, -, he⟩ <;> rw [he]
  · exact h.skipBlanks
  · exact h.skipBlanks.advance lexeme.length
  · exact h.skipBlanks

/-- From anywhere in the text the way back leads to where the cursor stood. -/
theorem Counts.seek (h : Counts source c) (hd : Counts source d) :
    d.seek c.pos c.line c.col = c := by
  unfold Cursor.seek
  dsimp only
  rw [hd.text, h.take_pos, ← h.after_eq, List.reverse_reverse]

theorem Counts.charAt (h : Counts source c) (offset : Int) :
    c.charAt offset = Text.charAt source (c.pos + offset) := by
  have hlen : c.before.reverse.length = c.pos := by rw [List.length_reverse, h.pos]
  unfold Cursor.charAt Text.charAt
  rw [← h.text, List.getD_eq_getElem?_getD]
  by_cases hoff : 0 ≤ offset
  · have hindex : (c.pos + offset).toNat - c.before.reverse.length = offset.toNat := by omega
    rw [if_pos hoff, if_pos (by omega), List.getElem?_append_right (by omega), hindex]
  · rw [if_neg hoff]
    rw [List.length_reverse] at hlen
    by_cases hin : 0 ≤ c.pos + offset
    · have hindex : c.before.length - 1 - (c.pos + offset).toNat = (-offset - 1).toNat := by omega
      rw [if_pos hin, List.getElem?_append_left (by rw [List.length_reverse]; omega),
        List.getElem?_reverse (by omega), hindex]
    · rw [if_neg hin, List.getElem?_eq_none (by omega)]
      rfl

/-- Looking ahead shows what reading would give, and leaves the cursor where it is. -/
theorem Counts.serve_peek (h : Counts source c) :
    c.serve file .peek = (.token (c.peek file), c) := by
  show (Reply.token (c.next file).1, (c.next file).2.seek c.pos c.line c.col) = _
  rw [h.seek h.next]
  rfl

theorem Counts.serve_char (h : Counts source c) (offset : Int) :
    c.serve file (.char offset) = (.char (Text.charAt source (c.pos + offset)), c) := by
  rw [← h.charAt]
  rfl

/-- The end of input and an error are read again and again. -/
theorem next_again (h : ∀ t, (c.next file).1 = .ok t → t.kind = .eof) :
    (c.next file).2.next file = c.next file := by
  rcases next_cases file c with ⟨-, he⟩ | ⟨lexeme, kind, hs, he⟩ | ⟨-, -, he⟩
  · rw [he]
    exact (next_skipBlanks c).trans he
  · rw [he] at h
    exact absurd (h _ rfl) (Token.scan?_kind_ne_eof hs)
  · rw [he]
    exact (next_skipBlanks c).trans he

/-! ## All requests -/

theorem Counts.passed (h : Counts source c) (k : Nat) : Counts source (c.passed file k) := by
  induction k generalizing c with
  | zero => exact h
  | succ k ih => exact ih h.next

theorem passed_again (h : ∀ t, (c.next file).1 = .ok t → t.kind = .eof) (k : Nat) :
    (c.passed file k).next file = c.next file := by
  induction k generalizing c with
  | zero => rfl
  | succ k ih =>
    have hagain := next_again h
    have hlater := ih (c := (c.next file).2) (by rw [hagain]; exact h)
    exact hlater.trans hagain

/-- **What is read behind `k` tokens** is the `k`-th thing of the text. -/
theorem passed_next (file : String) (c : Cursor) (k : Nat) :
    ((c.passed file k).next file).1 = TokenStream.nth ⟨(c.lex file).1, (c.lex file).2.1⟩ k := by
  induction k generalizing c with
  | zero =>
    rcases h : c.next file with ⟨err | t, d⟩
    · rw [passed, h, lex_of_stray h]
      rfl
    · by_cases hk : t.kind = .eof
      · rw [passed, h, lex_of_eof h hk]
        rfl
      · rw [passed, h, lex_of_token h hk]
        rfl
  | succ k ih =>
    rcases h : c.next file with ⟨err | t, d⟩
    · rw [passed_again (by rw [h]; intro t ht; cases ht), h, lex_of_stray h]
      rfl
    · by_cases hk : t.kind = .eof
      · rw [passed_again (by rw [h]; rintro _ ⟨⟩; exact hk), h, lex_of_eof h hk]
        rfl
      · rw [passed, h, ih d, lex_of_token h hk]
        rfl

/-- Every request is answered, in order. -/
theorem session_requests (file : String) (c : Cursor) (requests : List Request) :
    (c.session file requests).1.map Prod.fst = requests := by
  induction requests generalizing c with
  | nil => rfl
  | cons r rs ih => exact congrArg (r :: ·) (ih _)

/-- Where the cursor is depends on how many tokens have been read, and on nothing else. -/
theorem Counts.session_cursor (h : Counts source c) (requests : List Request) :
    (c.session file requests).2 = c.passed file (requests.count .next) := by
  induction requests generalizing c with
  | nil => rfl
  | cons r rs ih =>
    cases r with
    | next =>
      rw [List.count_cons_self]
      exact ih h.next
    | peek =>
      rw [List.count_cons_of_ne (by decide), ← ih h]
      show ((c.serve file .peek).2.session file rs).2 = _
      rw [h.serve_peek]
    | char offset =>
      rw [List.count_cons_of_ne (by simp)]
      exact ih h

/-- **The tokens that are read** are those of the text from the cursor on, whatever is looked at between
them. -/
theorem Counts.session_tokens (h : Counts source c) (requests : List Request) :
    ((c.session file requests).1.filter (·.1 = .next)).map Prod.snd =
      (List.range (requests.count .next)).map fun k => .token ((c.passed file k).next file).1 := by
  induction requests generalizing c with
  | nil => rfl
  | cons r rs ih =>
    cases r with
    | next =>
      have hrest := ih (c := (c.next file).2) h.next
      rw [List.count_cons_self, List.range_succ_eq_map, List.map_cons, List.map_map]
      exact congrArg _ hrest
    | peek =>
      rw [List.count_cons_of_ne (by decide), ← ih h]
      show (((Request.peek, (c.serve file .peek).1) ::
        ((c.serve file .peek).2.session file rs).1).filter _).map _ = _
      rw [h.serve_peek]
      rfl
    | char offset =>
      rw [List.count_cons_of_ne (by simp), ← ih h]
      rfl

/-- A stream of tokens gives what is read up to the end or the error, and then nothing. -/
theorem drawn_eq_take (file : String) (n : Nat) (c : Cursor) :
    drawn file n (some c) = (TokenStream.outcomes ⟨(c.lex file).1, (c.lex file).2.1⟩).take n := by
  have hover : ∀ n, drawn file n none = [] := by
    intro n
    induction n with
    | zero => rfl
    | succ n ih => exact ih
  induction n generalizing c with
  | zero => rfl
  | succ n ih =>
    rw [drawn]
    rcases h : c.next file with ⟨err | t, d⟩
    · have hresume : resume file (some c) = (some (.error err), none) := by simp only [resume, h]
      rw [hresume, hover, lex_of_stray h]
      simp [TokenStream.outcomes]
    · by_cases hk : t.kind = .eof
      · have hresume : resume file (some c) = (some (.ok t), none) := by simp only [resume, h, hk, if_true]
        rw [hresume, hover, lex_of_eof h hk]
        simp [TokenStream.outcomes]
      · have hresume : resume file (some c) = (some (.ok t), some d) := by
          simp only [resume, h, hk, if_false]
        rw [hresume, ih d, lex_of_token h hk]
        rfl

end Cursor

/-- **Lookahead is transparent.**  Whatever is asked of a reader of a text, in whatever order: the tokens it
gives for `next` are the first ones of the text, with the end of input or the error repeated behind them; at
every moment `peek` gives what `next` would give and `char` a character of the text, and both leave the
cursor as it was.  A stream of the text's tokens gives the same ones up to the same end or error. -/
theorem TokenStream.lookahead_transparent (file : String) (source : List Char)
    (requests : List Request) :
    let stream := ofChars file source
    let read := (Cursor.start source).session file requests
    let c := read.2
    (read.1.map Prod.fst = requests ∧
      (read.1.filter (·.1 = .next)).map Prod.snd =
        (List.range (requests.count .next)).map fun k => .token (stream.nth k)) ∧
    (c.peek file = stream.nth (requests.count .next) ∧ c.serve file .peek = (.token (c.peek file), c)) ∧
    (c.serve file .peek).1 = (c.serve file .next).1 ∧
    (∀ offset, c.serve file (.char offset) = (.char (Text.charAt source (c.pos + offset)), c)) ∧
    (∀ t ∈ stream.tokens, t.kind ≠ .eof) ∧ (∃ p, Token.Closes file source p stream.ending) ∧
    ∀ n, Cursor.drawn file n (some (Cursor.start source)) = stream.outcomes.take n := by
  intro stream read c
  have hcounts : c.Counts source := by
    show Cursor.Counts source ((Cursor.start source).session file requests).2
    rw [(Cursor.counts_start source).session_cursor]
    exact (Cursor.counts_start source).passed _
  have hpeek : c.peek file = stream.nth (requests.count .next) := by
    show (((Cursor.start source).session file requests).2.next file).1 = _
    rw [(Cursor.counts_start source).session_cursor]
    exact Cursor.passed_next file _ _
  refine ⟨⟨Cursor.session_requests file _ requests, ?_⟩, ⟨hpeek, hcounts.serve_peek⟩, ?_,
    hcounts.serve_char, ?_, ?_, ?_⟩
  · show ((Cursor.session file (Cursor.start source) requests).1.filter _).map _ = _
    rw [(Cursor.counts_start source).session_tokens]
    simp only [Cursor.passed_next]
    rfl
  · rw [hcounts.serve_peek]
    rfl
  · exact fun t => kind_ne_eof_of_mem_ofChars
  · obtain ⟨p, -, hcloses⟩ := ofChars_covers file source
    exact ⟨p, hcloses⟩
  · exact fun n => Cursor.drawn_eq_take file n (Cursor.start source)

end Reckon
