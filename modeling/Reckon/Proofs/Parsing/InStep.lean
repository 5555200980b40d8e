import Reckon.Proofs.Lexing.Lookahead
import Reckon.Proofs.Parsing.OnDemand
import Reckon.Proofs.Parsing.Script

/-!
# Parser and cursor in step

A parser of a text does not have the tokens in a list.  It keeps the current one and a cursor, which has read it
last (`Reader`).  To pass the token is to read the next one, to look behind it is to read as well and to go back,
and whether a sign joins its neighbours is seen from the characters near the cursor: the one that it stands on, and
the one two places before.

These are the right characters only while the cursor stands where the current token ends, so that the character
in front of it is the sign itself (`Reader.InStep`).  It stands there behind every token that it has read
(`Reader.Read.inStep`).  A reader then answers what the position with all tokens ahead answers
(`Reader.Tracks.answer`), and the current token is again the one that was read last.  So the two are in step at all
points of every run, whatever is asked (`Reader.read_of_visits`), and a parser on a reader has the outcome that
`Node.parse` has (`Reader.run_eq_parse`).  No token is passed that the run has not come to
(`Reader.visits_or_reaches`).
-/

namespace Reckon

/-- The current token of a parser, and the cursor that it reads from. -/
structure Reader where
  current : Token
  lexer : Cursor

namespace Reader

/-- Reads a token, which is the current one then. -/
def read (file : String) (c : Cursor) : Except Error Reader :=
  (c.next file).1.map fun t => ⟨t, (c.next file).2⟩

/-- The first token of a text. -/
def start (file : String) (source : List Char) : Except Error Reader :=
  read file (Cursor.start source)

/-- Past the current token.  The end of input is never passed. -/
def advance (file : String) (r : Reader) : Except Error Reader :=
  if r.current.kind = .eof then .ok r else read file r.lexer

/-- The token behind the current one: it is read, and the cursor goes back. -/
def following (file : String) (r : Reader) : Except Error (Token × Reader) :=
  (r.lexer.next file).1.map fun t =>
    (t, { r with lexer := (r.lexer.next file).2.seek r.lexer.pos r.lexer.line r.lexer.col })

/-- The sign that was just read has a blank behind it, or none before it. -/
def joins (r : Reader) : Bool :=
  Cursor.isGap (r.lexer.charAt 0) || !Cursor.isGap (r.lexer.charAt (-2))

/-- A reader answers by reading. -/
def supply (file : String) : Supply Reader where
  current := Reader.current
  joins := joins
  advance := advance file
  following := following file
  size r := (r.lexer.lex file).1.length + 2

/-- The cursor stands where the current token ends. -/
structure InStep (source : List Char) (r : Reader) : Prop where
  before : r.lexer.before.reverse = source.take r.lexer.pos
  after : r.lexer.after = source.drop r.lexer.pos
  /-- The token stands in the text, and the end of input has no characters. -/
  lexeme : r.current.text.toList <+: source.drop r.current.offset
  ended : r.current.kind = .eof → r.current.text = ""
  pos : r.lexer.pos = r.current.offset + r.current.text.length
  line : r.lexer.line = Text.lineAt source (r.current.offset + r.current.text.length)
  col : r.lexer.col = Text.columnAt source (r.current.offset + r.current.text.length)
  /-- Near the cursor are the neighbours of a sign. -/
  sign : r.current.kind = .plus ∨ r.current.kind = .minus →
    Text.charAt source r.current.offset ∈ ['+', '-'] ∧
      r.lexer.charAt 0 = Text.charAt source (r.current.offset + 1) ∧
      r.lexer.charAt (-2) = Text.charAt source (r.current.offset - 1)

variable {file : String} {source : List Char} {r s : Reader} {c : Cursor}

/-! ## Where the cursor stands -/

/-- The current token is the one that the cursor has read last. -/
def Read (file : String) (source : List Char) (r : Reader) : Prop :=
  ∃ c : Cursor, c.Counts source ∧ c.next file = (.ok r.current, r.lexer)

theorem Read.counts (h : r.Read file source) : r.lexer.Counts source := by
  obtain ⟨c, hc, hnext⟩ := h
  have hd : (c.next file).2.Counts source := hc.next
  rwa [hnext] at hd

/-- The token is the end of input, or a lexeme of the text with the blanks around it. -/
theorem Read.cases (h : r.Read file source) :
    (r.current.kind = .eof ∧ r.current.text = "" ∧ r.lexer.pos = r.current.offset) ∨
      (r.current.kind ≠ .eof ∧ r.current.Exact file source ∧
        r.lexer.pos = r.current.offset + r.current.text.length ∧
        r.current.blankAfter = Cursor.isGap (r.lexer.charAt 0) ∧
        r.current.blankBefore = Cursor.isGap (Text.charAt source (r.current.offset - 1))) := by
  obtain ⟨c, hc, hnext⟩ := h
  obtain ⟨current, lexer⟩ := r
  rcases Cursor.next_cases file c with ⟨-, he⟩ | ⟨lexeme, kind, hscan, he⟩ | ⟨-, -, he⟩
  · rw [he] at hnext
    cases hnext
    exact .inl ⟨rfl, rfl, rfl⟩
  · rw [he] at hnext
    cases hnext
    obtain ⟨rest, hrest⟩ := Token.scan?_append hscan
    have hlength : lexeme.length ≤ c.skipBlanks.after.length := by
      rw [hrest, List.length_append]
      omega
    refine .inr ⟨Token.scan?_kind_ne_eof hscan, Cursor.exact_token file hc.skipBlanks hscan, ?_, rfl, ?_⟩
    · rw [Cursor.pos_advance hlength]
      exact congrArg _ String.length_ofList.symm
    · exact congrArg Cursor.isGap (hc.skipBlanks.charAt (-1))
  · rw [he] at hnext
    cases hnext

theorem Read.pos_eq (h : r.Read file source) : r.lexer.pos = r.current.offset + r.current.text.length := by
  rcases h.cases with ⟨-, htext, hpos⟩ | ⟨-, -, hpos, -⟩
  · rw [htext, hpos]
    rfl
  · exact hpos

/-- A sign is a lexeme. -/
theorem Read.sign_cases (h : r.Read file source) (hk : r.current.kind = .plus ∨ r.current.kind = .minus) :
    r.current.Exact file source ∧ r.current.blankAfter = Cursor.isGap (r.lexer.charAt 0) ∧
      r.current.blankBefore = Cursor.isGap (Text.charAt source (r.current.offset - 1)) := by
  rcases h.cases with ⟨heof, -⟩ | ⟨-, hexact, -, hblanks⟩
  · rw [heof] at hk
    simp at hk
  · exact ⟨hexact, hblanks⟩

/-- It is one character of the text. -/
theorem Read.sign_stands (h : r.Read file source) (hk : r.current.kind = .plus ∨ r.current.kind = .minus) :
    r.current.text.length = 1 ∧ Text.charAt source r.current.offset ∈ ['+', '-'] := by
  have hplus : ∀ s ∈ Token.Kind.signs, s.2 = .plus → s.1 = ['+'] := by decide
  have hminus : ∀ s ∈ Token.Kind.signs, s.2 = .minus → s.1 = ['-'] := by decide
  have hexact := (h.sign_cases hk).1
  have hlisted := hexact.lexeme.mem_signs (by rcases hk with hk | hk <;> rw [hk] <;> decide)
  obtain ⟨x, hx, htext⟩ : ∃ x ∈ ['+', '-'], r.current.text.toList = [x] := by
    rcases hk with hk | hk
    · exact ⟨'+', by simp, hplus _ hlisted hk⟩
    · exact ⟨'-', by simp, hminus _ hlisted hk⟩
  obtain ⟨rest, hrest⟩ := hexact.stands
  have hchar : Text.charAt source r.current.offset = x := by
    rw [Text.charAt, if_pos (Int.natCast_nonneg _), Int.toNat_natCast, List.getD_eq_getElem?_getD,
      ← List.head?_drop, ← hrest, htext]
    rfl
  exact ⟨by rw [← String.length_toList, htext]; rfl, hchar ▸ hx⟩

/-- Behind a sign the character before it is two places back. -/
theorem Read.charAt_sign (h : r.Read file source) (hk : r.current.kind = .plus ∨ r.current.kind = .minus) :
    r.lexer.charAt 0 = Text.charAt source (r.current.offset + 1) ∧
      r.lexer.charAt (-2) = Text.charAt source (r.current.offset - 1) := by
  have hpos := h.pos_eq
  rw [(h.sign_stands hk).1] at hpos
  rw [h.counts.charAt, h.counts.charAt, hpos]
  exact ⟨congrArg _ (by omega), congrArg _ (by omega)⟩

/-- Near the cursor is what the token knows of the blanks around it, if it is a sign. -/
theorem Read.joins_eq (h : r.Read file source) (hk : r.current.kind = .plus ∨ r.current.kind = .minus) :
    r.joins = r.current.joinsNeighbours := by
  obtain ⟨-, hafter, hbefore⟩ := h.sign_cases hk
  rw [joins, Token.joinsNeighbours, hafter, hbefore, (h.charAt_sign hk).2]

/-- **The cursor stands where the token ends that it has read.** -/
theorem Read.inStep (h : r.Read file source) : r.InStep source where
  before := by rw [h.counts.take_pos]
  after := h.counts.after_eq
  lexeme := by
    rcases h.cases with ⟨-, htext, -⟩ | ⟨-, hexact, -⟩
    · rw [htext]
      exact List.nil_prefix
    · exact hexact.stands
  ended hk := by
    rcases h.cases with ⟨-, htext, -⟩ | ⟨hne, -⟩
    · exact htext
    · exact absurd hk hne
  pos := h.pos_eq
  line := by rw [h.counts.line_eq, h.pos_eq]
  col := by rw [h.counts.col_eq, h.pos_eq]
  sign hk := ⟨(h.sign_stands hk).2, h.charAt_sign hk⟩

/-! ## What a reader answers -/

/-- Looking behind the current token changes nothing. -/
theorem following_eq (h : r.lexer.Counts source) :
    following file r = (r.lexer.peek file).map fun t => (t, r) := by
  unfold following
  rw [h.seek h.next]
  rfl

/-- The reader has read the current token of the position, and has the others still to read. -/
structure Tracks (file : String) (source : List Char) (a : Ahead) (r : Reader) : Prop where
  current : a.current = r.current
  fed : a.FedBy file r.lexer
  read : r.Read file source

/-- Reading a token comes to the position before the tokens that a cursor has still to read. -/
theorem read_agree (h : c.Counts source) :
    Script.Agree (Tracks file source) (Ahead.start ⟨(c.lex file).1, (c.lex file).2.1⟩) (read file c) := by
  unfold read
  rcases hnext : c.next file with ⟨e | t, d⟩
  · rw [Cursor.lex_of_stray hnext]
    exact .error e
  · have hread : Read file source ⟨t, d⟩ := ⟨c, h, hnext⟩
    by_cases ht : t.kind = .eof
    · -- The end of input is read again and again.
      have hagain : d.next file = (.ok t, d) := by
        have hd : (c.next file).2.next file = c.next file :=
          Cursor.next_again (by rw [hnext]; rintro _ ⟨⟩; exact ht)
        rwa [hnext] at hd
      rw [Cursor.lex_of_eof hnext ht]
      exact .ok ⟨rfl, ⟨by rw [Cursor.lex_of_eof hagain ht], by rw [Cursor.lex_of_eof hagain ht]⟩, hread⟩
    · rw [Cursor.lex_of_token hnext ht]
      exact .ok ⟨rfl, ⟨rfl, rfl⟩, hread⟩

theorem start_agree (file : String) (source : List Char) :
    Script.Agree (Tracks file source) (Ahead.start (TokenStream.ofChars file source)) (start file source) :=
  read_agree (Cursor.counts_start source)

theorem Tracks.advance {a : Ahead} (h : Tracks file source a r) :
    Script.Agree (Tracks file source) a.advance (advance file r) := by
  by_cases hk : r.current.kind = .eof
  · have ha : a.advance = .ok a := by rw [Ahead.advance, h.current, if_pos hk]
    rw [ha, Reader.advance, if_pos hk]
    exact .ok h
  · have ha : a.advance = Ahead.start ⟨a.rest, a.ending⟩ := by
      obtain ⟨current, rest, ending⟩ := a
      rw [Ahead.advance, h.current, if_neg hk]
      cases rest <;> rfl
    rw [ha, Reader.advance, if_neg hk, h.fed.rest, h.fed.ending]
    exact read_agree h.read.counts

/-- A reader answers as the position does. -/
theorem Tracks.answer {γ : Type} (q : Question γ) {a : Ahead} (h : Tracks file source a r) :
    Script.Agree (Script.Alongside (Tracks file source)) (Ahead.supply.answer q a) ((supply file).answer q r) := by
  cases q with
  | current => exact .ok ⟨congrArg Token.seen h.current, h⟩
  | operator spacing bound =>
    have hoperator : Ahead.supply.operator? spacing bound a = (supply file).operator? spacing bound r := by
      rw [Supply.operator?_eq _ fun _ => rfl, Supply.operator?_eq _ h.read.joins_eq]
      exact congrArg _ h.current
    exact .ok ⟨hoperator, h⟩
  | advance => exact h.advance.map fun h' => ⟨congrArg Token.seen h.current, h'⟩
  | following =>
    have hfollowing : Script.Agree (Script.Alongside (Tracks file source)) (Ahead.supply.following a)
        ((supply file).following r) := by
      show Script.Agree _ (a.following.map fun t => (t, a)) (following file r)
      rw [h.fed.following_eq, following_eq h.read.counts]
      exact .of_map _ fun t => ⟨rfl, h⟩
    exact hfollowing.map fun h' => ⟨congrArg Token.seen h'.1, h'.2⟩
  | size => exact .ok ⟨congrArg (·.length + 2) h.fed.rest, h⟩

/-- Every answer leaves the cursor behind the current token. -/
theorem Read.answer {γ : Type} (q : Question γ) {x : γ} (h : r.Read file source)
    (hanswer : (supply file).answer q r = .ok (x, s)) : s.Read file source := by
  have htracks : Tracks file source ⟨r.current, (r.lexer.lex file).1, (r.lexer.lex file).2.1⟩ r :=
    ⟨rfl, ⟨rfl, rfl⟩, h⟩
  have hagree := htracks.answer q
  rw [hanswer] at hagree
  obtain ⟨_, -, hnext⟩ := hagree.exists_left
  exact hnext.read

/-! ## Runs -/

/-- **At all points of a run the current token is the one that the cursor has read last**, whatever is asked. -/
theorem read_of_visits {α : Type} {script rest : Script α} (h : start file source = .ok r)
    (hvisits : Script.Visits (supply file) (script, r) (rest, s)) : s.Read file source := by
  have hagree := start_agree file source
  rw [h] at hagree
  obtain ⟨_, hfirst⟩ := hagree.exists_left
  exact hvisits.invariant (fun q _ _ _ ht => ht.answer q) hfirst.read

/-- The second reader comes from the first one by passing tokens. -/
def Reaches (file : String) : Reader → Reader → Prop :=
  Relation.ReflTransGen fun r s => r.advance file = .ok s

/-- An answer leaves the reader alone or passes the current token. -/
theorem Read.stays_or_advances {γ : Type} (q : Question γ) {x : γ} (h : r.Read file source)
    (hanswer : (supply file).answer q r = .ok (x, s)) : s = r ∨ r.advance file = .ok s := by
  cases q with
  | current | operator | size =>
    cases hanswer
    exact .inl rfl
  | advance =>
    change (r.advance file).map _ = _ at hanswer
    cases hr : r.advance file with
    | error e =>
      rw [hr] at hanswer
      cases hanswer
    | ok t =>
      rw [hr] at hanswer
      cases hanswer
      exact .inr rfl
  | following =>
    change (r.following file).map _ = _ at hanswer
    rw [following_eq h.counts] at hanswer
    cases hpeek : r.lexer.peek file with
    | error e =>
      rw [hpeek] at hanswer
      cases hanswer
    | ok t =>
      rw [hpeek] at hanswer
      cases hanswer
      exact .inl rfl

/-- The end of input is not passed. -/
theorem Reaches.eq_of_eof (h : r.Reaches file s) (hk : r.current.kind = .eof) : s = r := by
  induction h with
  | refl => rfl
  | tail _ hstep ih =>
    rw [ih, advance, if_pos hk] at hstep
    cases hstep
    rfl

/-- A run passes no token without having come to it. -/
theorem visits_or_reaches {α : Type} {script : Script α} {p : Script α × Reader}
    (h : start file source = .ok r) (hvisits : Script.Visits (supply file) (script, r) p)
    (hs : r.Reaches file s) :
    (∃ rest, Script.Visits (supply file) (script, r) (rest, s)) ∨ p.2.Reaches file s := by
  induction hvisits with
  | refl => exact .inr hs
  | @tail p q hp hstep ih =>
    rcases ih with hvisited | hps
    · exact .inl hvisited
    · obtain ⟨γ, question, go, x, -, hanswer, -⟩ := hstep
      have hread : p.2.Read file source := read_of_visits h hp
      rcases hread.stays_or_advances question hanswer with hsame | hnext
      · exact .inr (hsame ▸ hps)
      · rcases Relation.ReflTransGen.cases_head hps with rfl | ⟨t, ht, hts⟩
        · exact .inl ⟨p.1, hp⟩
        · rw [hnext] at ht
          cases ht
          exact .inr hts

/-- Parsing a text is running the script of the parser on a reader of the text. -/
theorem run_eq_parse {script : Script Node} (h : ∀ a, script.run Ahead.supply a = Parser.program a)
    (file source : String) :
    (start file source.toList >>= fun r => (script.run (supply file) r).map Prod.fst) =
      Node.parse file source := by
  have hstart := start_agree file source.toList
  unfold Node.parse Node.ofTokens
  generalize Ahead.start (TokenStream.ofChars file source.toList) = x at hstart ⊢
  generalize start file source.toList = y at hstart ⊢
  cases hstart with
  | error e => rfl
  | @ok a r htracks =>
    have hrun := Script.run_agree Tracks.current (fun h _ q => h.answer q) script htracks
    rw [h] at hrun
    show (script.run (supply file) r).map Prod.fst = (Parser.program a >>= fun result => pure result.1)
    generalize Parser.program a = x at hrun ⊢
    generalize script.run (supply file) r = y at hrun ⊢
    cases hrun with
    | error e => rfl
    | ok hsame => exact congrArg Except.ok hsame.1.symm

/-- A run that gives a program has come to every token of the text, and to its end. -/
theorem visits_of_run {script : Script Node} (hscript : ∀ a, script.run Ahead.supply a = Parser.program a)
    {node : Node} {last : Reader} (h : start file source = .ok r)
    (hrun : script.run (supply file) r = .ok (node, last)) :
    Script.Visits (supply file) (script, r) (.done node, last) ∧
      ∀ s, r.Reaches file s → ∃ rest, Script.Visits (supply file) (script, r) (rest, s) := by
  have hend := Script.visits_of_run hrun
  refine ⟨hend, fun s hs => (visits_or_reaches h hend hs).elim id fun hlast => ?_⟩
  have hstart := start_agree file source
  rw [h] at hstart
  obtain ⟨a, htracks⟩ := hstart.exists_left
  have hagree := Script.run_agree Tracks.current (fun h _ q => h.answer q) script htracks
  rw [hscript, hrun] at hagree
  generalize hprogram : Parser.program a = x at hagree
  cases hagree with
  | @ok x _ hsame =>
    obtain ⟨y, b⟩ := x
    have hk : last.current.kind = .eof := hsame.2.current ▸ (Parser.lines_of_program hprogram).1
    rw [hlast.eq_of_eof hk]
    exact ⟨_, hend⟩

end Reader

/-- **Parser and cursor stay in step.**  The parser of programs is a script that sees no blanks.  On a reader of a
text, which has the current token and a cursor and no more, any such script has the outcome of parsing the text.
Wherever it comes to, the cursor stands at the end of the current token, on the line and at the column of this
place; if the token is a sign, the character at the cursor is the one behind the sign, and the character two
places before it the one in front of the sign.  Looking behind the current token leaves the reader as it was.  A
run that gives a program comes to its end, and on the way to every token of the text. -/
theorem Parser.cursor_in_step :
    (∃ script : Script Node, ∀ a, script.run Ahead.supply a = program a) ∧
      ∀ script : Script Node, (∀ a, script.run Ahead.supply a = program a) → ∀ file source : String,
        (Reader.start file source.toList >>= fun r => (script.run (Reader.supply file) r).map Prod.fst) =
          Node.parse file source ∧
        ∀ first, Reader.start file source.toList = .ok first →
          (∀ rest r, Script.Visits (Reader.supply file) (script, first) (rest, r) →
            r.InStep source.toList ∧ r.following file = (r.lexer.peek file).map fun t => (t, r)) ∧
          ∀ node last, script.run (Reader.supply file) first = .ok (node, last) →
            Script.Visits (Reader.supply file) (script, first) (.done node, last) ∧
              ∀ r, first.Reaches file r →
                ∃ rest, Script.Visits (Reader.supply file) (script, first) (rest, r) := by
  refine ⟨Asks.program, fun script hscript file source => ⟨Reader.run_eq_parse hscript file source, ?_⟩⟩
  refine fun first hfirst => ⟨fun rest r hvisits => ?_, fun node last => Reader.visits_of_run hscript hfirst⟩
  have hread := Reader.read_of_visits hfirst hvisits
  exact ⟨hread.inStep, Reader.following_eq hread.counts⟩

/-- The third token of this row is a sign.  The parser comes to it, between a blank and a digit. -/
theorem Parser.cursor_in_step_row :
    ∃ (script : Script Node) (first : Reader) (rest : Script Node) (r : Reader),
      (∀ a, script.run Ahead.supply a = program a) ∧
      Reader.start "<input>" "[1 -2]".toList = .ok first ∧
      Script.Visits (Reader.supply "<input>") (script, first) (rest, r) ∧
      r.InStep "[1 -2]".toList ∧ r.current.kind = .minus ∧
      r.lexer.charAt (-2) = ' ' ∧ r.lexer.charAt 0 = '2' := by
  have hsign : (Reader.start "<input>" "[1 -2]".toList).toOption.any (fun first =>
      (first.advance "<input>").toOption.any fun second =>
        (second.advance "<input>").toOption.any fun r =>
          r.current.kind == .minus && (r.lexer.charAt (-2) == ' ' && r.lexer.charAt 0 == '2')) = true := by
    decide +kernel
  obtain ⟨first, hfirst, hsign⟩ := toOption_any_iff.1 hsign
  obtain ⟨second, hsecond, hsign⟩ := toOption_any_iff.1 hsign
  obtain ⟨r, hr, hsign⟩ := toOption_any_iff.1 hsign
  simp only [Bool.and_eq_true, beq_iff_eq] at hsign
  obtain ⟨program, hprogram⟩ : ∃ program, Node.parse "<input>" "[1 -2]" = .ok program :=
    Node.exists_parse_of_toBool (by decide +kernel)
  obtain ⟨⟨script, hscript⟩, hall⟩ := Parser.cursor_in_step
  obtain ⟨hparse, hpoints⟩ := hall script hscript "<input>" "[1 -2]"
  obtain ⟨hinStep, hcomes⟩ := hpoints first hfirst
  obtain ⟨node, last, hrun⟩ : ∃ node last, script.run (Reader.supply "<input>") first = .ok (node, last) := by
    rw [hfirst, hprogram] at hparse
    change (script.run (Reader.supply "<input>") first).map Prod.fst = .ok program at hparse
    cases hrun : script.run (Reader.supply "<input>") first with
    | error e =>
      rw [hrun] at hparse
      cases hparse
    | ok result => exact ⟨result.1, result.2, rfl⟩
  obtain ⟨rest, hvisits⟩ := (hcomes node last hrun).2 r (.head hsecond (.single hr))
  exact ⟨script, first, rest, r, hscript, hfirst, hvisits, (hinStep rest r hvisits).1, hsign⟩

end Reckon
