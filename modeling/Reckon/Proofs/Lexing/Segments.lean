import Reckon.Proofs.Lexing.Lossless

/-!
# Texts as lexemes with blanks between them

A text that is read without an error is a row of segments, each of them a lexeme with the blanks before it,
and some blanks at the end (`TokenStream.exists_segments`).  Conversely the segments say which tokens are read
(`TokenStream.ofChars_segments`): one for each segment, of its kind and with its lexeme.  Of the places of the
tokens only this is kept: the characters next to a token, as far as they are blanks, and whether the token
behind a numeral touches it (`Segment.ReadAs`).

So texts with the same lexemes can be compared segment by segment, whatever the blanks between them are,
and the segments of a text can be looked up in a longer one (`Segment.text_append`,
`Segment.Legible.append`).
-/

namespace Reckon

/-- A lexeme with the blanks before it. -/
structure Segment where
  blanks : List Char
  kind : Token.Kind
  lexeme : List Char

namespace Segment

variable {p q : Segment} {ps qs : List Segment} {rest : List Char} {t : Token} {ts : List Token}

/-- The text of the segments, with more text behind them. -/
def text : List Segment → List Char → List Char
  | [], rest => rest
  | p :: ps, rest => p.blanks ++ (p.lexeme ++ text ps rest)

theorem text_append (ps qs : List Segment) (rest : List Char) :
    text (ps ++ qs) rest = text ps (text qs rest) := by
  induction ps with
  | nil => rfl
  | cons p ps ih => rw [List.cons_append, text, text, ih]

theorem text_eq_append (ps : List Segment) (rest : List Char) : text ps rest = text ps [] ++ rest := by
  induction ps with
  | nil => rfl
  | cons p ps ih => rw [text, text, ih, List.append_assoc, List.append_assoc]

/-- The characters of the segments are in their text. -/
theorem mem_text (hp : p ∈ ps) {c : Char} (hc : c ∈ p.blanks ∨ c ∈ p.lexeme) : c ∈ text ps rest := by
  induction ps with
  | nil => cases hp
  | cons q ps ih =>
    rw [text, List.mem_append, List.mem_append]
    rcases List.mem_cons.1 hp with rfl | hp
    · exact hc.imp_right .inl
    · exact .inr (.inr (ih hp))

/-- Before this text, each lexeme is the token that is read where it stands. -/
inductive Legible (rest : List Char) : List Segment → Prop where
  | nil : Legible rest []
  | cons {p : Segment} {ps : List Segment} (blanks : ∀ c ∈ p.blanks, Token.isSkipped c = true)
      (scan : Token.scan? (p.lexeme ++ text ps rest) = some (p.lexeme, p.kind))
      (tail : Legible rest ps) : Legible rest (p :: ps)

theorem Legible.append (hp : Legible (text qs rest) ps) (hq : Legible rest qs) :
    Legible rest (ps ++ qs) := by
  induction hp with
  | nil => exact hq
  | @cons p ps hblanks hscan _ ih =>
    have hscan' : Token.scan? (p.lexeme ++ text (ps ++ qs) rest) = some (p.lexeme, p.kind) := by
      rw [text_append, hscan]
    exact .cons hblanks hscan' ih

theorem Legible.of_mem (h : Legible rest ps) (hp : p ∈ ps) :
    (∀ c ∈ p.blanks, Token.isSkipped c = true) ∧ Token.Lexeme p.lexeme p.kind := by
  induction h with
  | nil => cases hp
  | cons hblanks hscan _ ih =>
    rcases List.mem_cons.1 hp with rfl | hp
    · exact ⟨hblanks, Token.lexeme_of_scan? hscan⟩
    · exact ih hp

/-- What is behind a break makes no difference to the lexemes before it. -/
theorem Legible.of_breaks {rest' : List Char} (h : Legible rest ps) (hrest : Token.Breaks rest)
    (hrest' : Token.Breaks rest') : Legible rest' ps := by
  induction h with
  | nil => exact .nil
  | @cons p ps hblanks hscan _ ih =>
    refine .cons hblanks ?_ ih
    have hne : p.lexeme ++ text ps [] ≠ [] :=
      List.append_ne_nil_of_left_ne_nil (Token.scan?_ne_nil hscan) _
    rw [text_eq_append, ← List.append_assoc, Token.scan?_append_breaks hrest hne] at hscan
    rw [text_eq_append, ← List.append_assoc, Token.scan?_append_breaks hrest' hne, hscan]

/-- The tokens that segments are read as, before this text. -/
inductive ReadAs (rest : List Char) : List Segment → List Token → Prop where
  | nil : ReadAs rest [] []
  | cons {p : Segment} {ps : List Segment} {t : Token} {ts : List Token} (kind : t.kind = p.kind)
      (lexeme : t.text = String.ofList p.lexeme)
      (before : t.blankBefore = Cursor.isGap (p.blanks.getLastD '\x00'))
      (after : t.blankAfter = Cursor.isGap ((text ps rest).headD '\x00'))
      (touches : p.kind = .number → ∀ q ∈ ps.head?, ∀ u ∈ ts.head?, (t.Touches u ↔ q.blanks = []))
      (tail : ReadAs rest ps ts) : ReadAs rest (p :: ps) (t :: ts)

theorem ReadAs.length_eq (h : ReadAs rest ps ts) : ts.length = ps.length := by
  induction h with
  | nil => rfl
  | cons _ _ _ _ _ _ ih => rw [List.length_cons, List.length_cons, ih]

theorem ReadAs.exists_cons (h : ReadAs rest (p :: ps) ts) :
    ∃ t us, ts = t :: us ∧ t.kind = p.kind ∧ t.text = String.ofList p.lexeme ∧ ReadAs rest ps us := by
  cases h with
  | cons hkind hlexeme _ _ _ htail => exact ⟨_, _, rfl, hkind, hlexeme, htail⟩

theorem ReadAs.exists_segment (h : ReadAs rest ps ts) (ht : t ∈ ts) : ∃ p ∈ ps, t.kind = p.kind := by
  induction h with
  | nil => cases ht
  | @cons p ps u _ hkind _ _ _ _ _ ih =>
    rcases List.mem_cons.1 ht with rfl | ht
    · exact ⟨p, List.mem_cons_self, hkind⟩
    · obtain ⟨q, hq, hk⟩ := ih ht
      exact ⟨q, List.mem_cons_of_mem p hq, hk⟩

end Segment

namespace Cursor

variable {file : String} {c : Cursor} {cs r : List Char}

/-- A space or a tab is skipped. -/
theorem isGap_eq_false {x : Char} (h : Token.isSkipped x = false) : isGap x = false := by
  cases hg : isGap x with
  | false => rfl
  | true =>
    unfold isGap at hg
    unfold Token.isSkipped at h
    rw [hg] at h
    cases h

theorem newline_notMem_of_skipped (h : ∀ x ∈ cs, Token.isSkipped x = true) : '\n' ∉ cs := by
  intro hmem
  exact absurd (h _ hmem) (by decide)

/-- The characters that are passed stand before the cursor. -/
theorem before_advance (h : c.after = cs ++ r) : (c.advance cs.length).before = cs.reverse ++ c.before := by
  induction cs generalizing c with
  | nil => rfl
  | cons x cs ih =>
    have hafter : c.step.after = cs ++ r := by rw [step_after, h]; rfl
    have hbefore : c.step.before = x :: c.before := by
      unfold step
      rw [h]
      simp only [List.cons_append]
      split <;> rfl
    rw [List.length_cons, advance_succ, ih hafter, hbefore, List.reverse_cons, List.append_assoc]
    rfl

/-- The character before the cursor is the last one that was passed. -/
theorem charAt_advance (h : c.after = cs ++ r) :
    (c.advance cs.length).charAt (-1) = cs.getLastD (c.charAt (-1)) := by
  show ((c.advance cs.length).before[0]?).getD '\x00' = _
  rw [before_advance h]
  rcases List.eq_nil_or_concat cs with rfl | ⟨xs, x, rfl⟩
  · rfl
  · simp

/-- Past the blanks before a lexeme. -/
theorem skipBlanks_segments (h : c.after = cs ++ r) (hcs : ∀ x ∈ cs, Token.isSkipped x = true)
    {s : List Char × Token.Kind} (hscan : Token.scan? r = some s) :
    c.skipBlanks = c.advance cs.length := by
  have hstop : ∀ x ∈ r.head?, Token.isSkipped x = false := by
    intro x hx
    cases r with
    | nil => cases hx
    | cons y r =>
      cases hx
      exact Token.isSkipped_of_scan? hscan
  unfold skipBlanks
  rw [h, (Token.takeWhile_append_of_stop hcs hstop).1]

/-- The token of a lexeme ends right before the place behind it. -/
theorem token_touches_iff {lexeme : List Char} {kind : Token.Kind} (hc : c.after = lexeme ++ r)
    (hcol : 1 ≤ c.col) (hscan : Token.scan? (lexeme ++ r) = some (lexeme, kind)) (hk : kind ≠ .newline)
    {u : Token} {n : Nat} (hline : u.span.startLine = (c.advance lexeme.length).line)
    (hstart : u.span.startCol = (c.advance lexeme.length).col + n) :
    (token file kind lexeme c (c.advance lexeme.length)).Touches u ↔ n = 0 := by
  obtain ⟨hendLine, hendCol⟩ := token_end file hk lexeme c (c.advance lexeme.length)
  obtain ⟨hcolumn, -⟩ := advance_col hc ((Token.lexeme_of_scan? hscan).newline_notMem hk)
  have hpos : 0 < lexeme.length := List.length_pos_iff.2 (Token.scan?_ne_nil hscan)
  unfold Token.Touches
  rw [hendLine, hendCol, hline, hstart, hcolumn]
  omega

/-- Segments with blanks behind them are read as their tokens, up to the end of input. -/
theorem lex_segments (file : String) {ps : List Segment} {tail : List Char}
    (hc : c.after = Segment.text ps tail) (hgap : isGap (c.charAt (-1)) = false) (hcol : 1 ≤ c.col)
    (hps : Segment.Legible tail ps) (htail : ∀ x ∈ tail, Token.isSkipped x = true) :
    ∃ ts last e, c.lex file = (ts, .ok last, e) ∧ last.kind = .eof ∧ Segment.ReadAs tail ps ts ∧
      ∀ p ∈ ps.head?, ∀ t ∈ ts.head?, t.span.startLine = c.line ∧
        t.span.startCol = c.col + p.blanks.length := by
  -- The last part is there for the induction: it says whether the token touches the one before it.
  induction ps generalizing c with
  | nil =>
    have hempty : c.skipBlanks.after = [] := by
      rw [skipBlanks_after, hc]
      exact List.dropWhile_eq_nil_iff.2 htail
    exact ⟨[], _, _, lex_of_eof (next_of_empty file hempty) rfl, rfl, .nil, fun p hp => by cases hp⟩
  | cons p ps ih =>
    cases hps with
    | cons hblanks hscan hps =>
      have hskip : c.skipBlanks = c.advance p.blanks.length := skipBlanks_segments hc hblanks hscan
      obtain ⟨d, hd⟩ : ∃ d, d = c.advance p.blanks.length := ⟨_, rfl⟩
      have hdafter : d.after = p.lexeme ++ Segment.text ps tail := by
        rw [hd, advance_after, hc, Segment.text, List.drop_left]
      obtain ⟨hdcol, hdline⟩ := advance_col hc (newline_notMem_of_skipped hblanks)
      rw [← hd] at hdcol hdline
      obtain ⟨e, he⟩ : ∃ e, e = d.advance p.lexeme.length := ⟨_, rfl⟩
      have heafter : e.after = Segment.text ps tail := by
        rw [he, advance_after, hdafter, List.drop_left]
      have hlexeme := Token.lexeme_of_scan? hscan
      have hegap : isGap (e.charAt (-1)) = false := by
        rw [he, charAt_advance hdafter]
        obtain ⟨xs, x, hx⟩ := (List.eq_nil_or_concat p.lexeme).resolve_left hlexeme.ne_nil
        have hmem : x ∈ p.lexeme := by simp [hx]
        have hnot := hlexeme.isSkipped_of_mem hmem
        rw [hx, List.concat_eq_append, List.getLastD_concat]
        exact isGap_eq_false hnot
      obtain ⟨ts, last, g, hlex, hlast, hread, hhead⟩ :=
        ih heafter hegap (he ▸ advance_col_pos _ (by omega)) hps
      have hscan' : Token.scan? d.after = some (p.lexeme, p.kind) := by rw [hdafter, hscan]
      have hnext : c.next file = (.ok (token file p.kind p.lexeme d e), e) := by
        have h := next_of_scan (c := c) file (hskip ▸ hd ▸ hscan')
        rwa [hskip, ← hd, ← he] at h
      refine ⟨token file p.kind p.lexeme d e :: ts, last, g, ?_, hlast, .cons rfl rfl ?_ ?_ ?_ hread, ?_⟩
      · rw [lex_of_token hnext (Token.scan?_kind_ne_eof hscan), hlex]
      · show isGap (d.charAt (-1)) = _
        rw [hd, charAt_advance hc]
        rcases List.eq_nil_or_concat p.blanks with hnil | ⟨xs, x, hx⟩
        · rw [hnil]
          exact hgap
        · rw [hx, List.concat_eq_append, List.getLastD_concat, List.getLastD_concat]
      · show isGap (e.charAt 0) = _
        rw [charAt_after, heafter, List.headD_eq_head?_getD]
      · intro hnumber q hq u hu
        obtain ⟨hline, hstart⟩ := hhead q hq u hu
        rw [he] at hline hstart ⊢
        rw [token_touches_iff hdafter (by omega) hscan (by rw [hnumber]; decide) hline hstart,
          List.length_eq_zero_iff]
      · rintro q ⟨⟩ t ⟨⟩
        obtain ⟨hline, hstart⟩ := token_start file p.kind p.lexeme d e
        rw [hline, hstart, hdline, hdcol]
        exact ⟨rfl, by simp⟩

/-- What is read without an error is segments with blanks behind them. -/
theorem exists_segments {ts : List Token} {last : Token} {e : Cursor} (h : c.lex file = (ts, .ok last, e)) :
    ∃ ps tail, c.after = Segment.text ps tail ∧ Segment.Legible tail ps ∧
      ∀ x ∈ tail, Token.isSkipped x = true := by
  induction hn : c.after.length using Nat.strong_induction_on generalizing c ts with
  | _ n ih =>
    have hblanks : ∀ x ∈ c.after.takeWhile Token.isSkipped, Token.isSkipped x = true :=
      fun x hx => List.mem_takeWhile_imp hx
    have hsplit : c.after = c.after.takeWhile Token.isSkipped ++ c.skipBlanks.after := by
      rw [skipBlanks_after, List.takeWhile_append_dropWhile]
    rcases next_cases file c with ⟨hempty, -⟩ | ⟨lexeme, kind, hscan, hnext⟩ | ⟨-, -, hnext⟩
    · refine ⟨[], c.after, rfl, .nil, fun x hx => ?_⟩
      rw [hempty, List.append_nil] at hsplit
      rw [hsplit] at hx
      exact hblanks x hx
    · have hk := Token.scan?_kind_ne_eof hscan
      rw [lex_of_token hnext hk] at h
      obtain ⟨us, hus⟩ : ∃ us, (c.skipBlanks.advance lexeme.length).lex file = (us, .ok last, e) :=
        ⟨_, Prod.ext rfl (Prod.ext_iff.1 h).2⟩
      obtain ⟨r, hr⟩ := Token.scan?_append hscan
      have hafter : (c.skipBlanks.advance lexeme.length).after = r := by
        rw [advance_after, hr, List.drop_left]
      obtain ⟨ps, tail, htext, hps, htail⟩ := ih _ (hn ▸ length_next_lt hnext hk) hus rfl
      rw [hafter] at htext
      refine ⟨⟨c.after.takeWhile Token.isSkipped, kind, lexeme⟩ :: ps, tail, ?_, .cons hblanks ?_ hps,
        htail⟩
      · rw [Segment.text, ← htext, ← hr]
        exact hsplit
      · rw [← htext, ← hr]
        exact hscan
    · rw [lex_of_stray hnext] at h
      cases h

end Cursor

namespace TokenStream

variable {file : String} {source tail : List Char} {ps : List Segment}

theorem exists_segments {ts : List Token} {last : Token} (h : ofChars file source = ⟨ts, .ok last⟩) :
    ∃ ps tail, source = Segment.text ps tail ∧ Segment.Legible tail ps ∧
      ∀ x ∈ tail, Token.isSkipped x = true := by
  obtain ⟨e, hlex⟩ := lex_start_of_ofChars h
  exact Cursor.exists_segments hlex

theorem ofChars_segments (file : String) (hps : Segment.Legible tail ps)
    (htail : ∀ x ∈ tail, Token.isSkipped x = true) :
    ∃ ts last, ofChars file (Segment.text ps tail) = ⟨ts, .ok last⟩ ∧ last.kind = .eof ∧
      Segment.ReadAs tail ps ts := by
  obtain ⟨ts, last, e, hlex, hlast, hread, -⟩ :=
    Cursor.lex_segments file (c := Cursor.start (Segment.text ps tail)) rfl rfl (Nat.le_refl 1) hps htail
  refine ⟨ts, last, ?_, hlast, hread⟩
  unfold ofChars
  rw [hlex]

end TokenStream

end Reckon
