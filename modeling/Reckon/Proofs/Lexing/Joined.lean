import Mathlib.Data.List.Forall2
import Reckon.Proofs.Lexing.Lexeme
import Reckon.Proofs.Lexing.Next

/-!
# Texts one after the other

No lexeme goes on past the end of a line.  So what is read from a text is also read from it where more
lines follow (`Cursor.Mirrors.lex`), and what is read from a text is also read from it where other lines
stand before it: only the lines of the spans are others (`Token.Moved`).  Together the tokens of two
texts with a newline between them are those of the first, a newline, and those of the second
(`TokenStream.ofChars_join`).
-/

namespace Reckon

namespace Token

/-- The second token is the first one, `d` lines further down. -/
structure Moved (d : Nat) (t t' : Token) : Prop where
  kind : t'.kind = t.kind
  text : t'.text = t.text
  startLine : t'.span.startLine = t.span.startLine + d
  startCol : t'.span.startCol = t.span.startCol
  endLine : t'.span.endLine = t.span.endLine + d
  endCol : t'.span.endCol = t.span.endCol
  blankBefore : t'.blankBefore = t.blankBefore
  blankAfter : t'.blankAfter = t.blankAfter

/-- Nothing follows, or another line does. -/
def EndsLine (rest : List Char) : Prop :=
  ∀ c ∈ rest.head?, c = '\n'

theorem EndsLine.breaks {rest : List Char} (h : EndsLine rest) : Breaks rest := by
  intro c hc
  rw [h c hc]
  decide

end Token

namespace Cursor

variable {file : String} {c c' e e' : Cursor} {t last : Token} {ts : List Token}

/-! ## Reading all tokens, without counting -/

theorem lexFrom_congr {n k : Nat} (hn : c.after.length ≤ n) (hk : c.after.length ≤ k) :
    c.lexFrom file n = c.lexFrom file k := by
  -- With no character left the end of input is read, however many tokens are asked for.
  have hzero : ∀ {c : Cursor} (j : Nat), c.after.length ≤ 0 →
      c.lexFrom file j = ([], (c.next file).1, (c.next file).2) := by
    intro c j hc
    have hempty : c.skipBlanks.after = [] := by
      rw [skipBlanks_after, List.eq_nil_of_length_eq_zero (Nat.le_zero.1 hc)]
      rfl
    cases j with
    | zero => rfl
    | succ j =>
      rw [lexFrom, next_of_empty file hempty]
      exact if_pos rfl
  induction n generalizing c k with
  | zero => rw [hzero 0 hn, hzero k hn]
  | succ n ih =>
    cases k with
    | zero => rw [hzero 0 hk, hzero (n + 1) hk]
    | succ k =>
      rw [lexFrom, lexFrom]
      split
      · rfl
      · rename_i u d hu
        split
        · rfl
        · rename_i hkind
          have hlt := length_next_lt hu hkind
          rw [ih (c := d) (k := k) (by omega) (by omega)]

theorem lex_of_eof (h : c.next file = (.ok t, e)) (hk : t.kind = .eof) :
    c.lex file = ([], .ok t, e) := by
  have hlex : c.lex file = c.lexFrom file (c.after.length + 1) :=
    lexFrom_congr (Nat.le_refl _) (Nat.le_succ _)
  rw [hlex, lexFrom, h]
  exact if_pos hk

theorem lex_of_token (h : c.next file = (.ok t, e)) (hk : t.kind ≠ .eof) :
    c.lex file = (t :: (e.lex file).1, (e.lex file).2) := by
  have hlex : c.lex file = c.lexFrom file (c.after.length + 1) :=
    lexFrom_congr (Nat.le_refl _) (Nat.le_succ _)
  have hlt := length_next_lt h hk
  have hrest : e.lexFrom file c.after.length = e.lex file :=
    lexFrom_congr (Nat.le_of_lt hlt) (Nat.le_refl _)
  rw [hlex, lexFrom, h]
  refine (if_neg hk).trans ?_
  rw [hrest]

theorem lex_of_stray {err : Error} (h : c.next file = (.error err, e)) :
    c.lex file = ([], .error err, e) := by
  have hlex : c.lex file = c.lexFrom file (c.after.length + 1) :=
    lexFrom_congr (Nat.le_refl _) (Nat.le_succ _)
  rw [hlex, lexFrom, h]

/-- The end of input stands where only blanks are left. -/
theorem next_of_eof (h : c.next file = (.ok t, e)) (hk : t.kind = .eof) :
    e.after = [] ∧ e = c.skipBlanks := by
  rcases next_cases file c with ⟨hempty, he⟩ | ⟨lexeme, kind, hs, he⟩ | ⟨-, -, he⟩ <;> rw [he] at h <;>
    cases h
  · exact ⟨hempty, rfl⟩
  · exact absurd hk (Token.scan?_kind_ne_eof hs)

theorem skipBlanks_skipBlanks (c : Cursor) : c.skipBlanks.skipBlanks = c.skipBlanks := by
  cases hafter : c.skipBlanks.after with
  | nil =>
    rw [skipBlanks, hafter]
    rfl
  | cons x r =>
    have hx : Token.isSkipped x = false := by
      rw [skipBlanks_after] at hafter
      have hnot := List.head?_dropWhile_not Token.isSkipped c.after
      rw [hafter] at hnot
      simpa using hnot
    exact skipBlanks_of_head hafter hx

theorem next_skipBlanks (c : Cursor) : c.skipBlanks.next file = c.next file := by
  unfold next
  rw [skipBlanks_skipBlanks]

/-- Blanks before the tokens make no difference to them. -/
theorem lex_skipBlanks (c : Cursor) : c.skipBlanks.lex file = c.lex file := by
  have hnext : c.skipBlanks.next file = c.next file := next_skipBlanks c
  rcases h : c.next file with ⟨err | t, e⟩ <;> rw [h] at hnext
  · rw [lex_of_stray h, lex_of_stray hnext]
  · by_cases hk : t.kind = .eof
    · rw [lex_of_eof h hk, lex_of_eof hnext hk]
    · rw [lex_of_token h hk, lex_of_token hnext hk]

/-- The end of input is not among the tokens before it. -/
theorem kind_ne_eof_of_mem_lexFrom {n : Nat} (h : t ∈ (c.lexFrom file n).1) : t.kind ≠ .eof := by
  induction n generalizing c with
  | zero => exact absurd h List.not_mem_nil
  | succ n ih =>
    rw [lexFrom] at h
    split at h
    · exact absurd h List.not_mem_nil
    · split at h
      · exact absurd h List.not_mem_nil
      · rename_i hk
        rcases List.mem_cons.1 h with rfl | h
        · exact hk
        · exact ih h

/-! ## The same text, further down or with more behind it -/

/-- The second cursor stands `d` lines further down, before the same characters and then `rest`. -/
structure Mirrors (d : Nat) (rest : List Char) (c c' : Cursor) : Prop where
  after : c'.after = c.after ++ rest
  line : c'.line = c.line + d
  col : c'.col = c.col
  gap : isGap (c'.charAt (-1)) = isGap (c.charAt (-1))

variable {d : Nat} {rest : List Char}

theorem charAt_after (c : Cursor) : c.charAt 0 = c.after.head?.getD '\x00' := by
  show (c.after[0]?).getD '\x00' = _
  rw [List.head?_eq_getElem?]

namespace Mirrors

theorem step (h : Mirrors d rest c c') (hc : c.after ≠ []) : Mirrors d rest c.step c'.step := by
  obtain ⟨x, r, hx⟩ := List.exists_cons_of_ne_nil hc
  have hx' : c'.after = x :: (r ++ rest) := by rw [h.after, hx, List.cons_append]
  unfold Cursor.step
  rw [hx, hx']
  dsimp only
  split
  · exact ⟨rfl, by simp only [h.line]; omega, rfl, rfl⟩
  · exact ⟨rfl, h.line, by rw [h.col], rfl⟩

theorem advance (h : Mirrors d rest c c') {n : Nat} (hn : n ≤ c.after.length) :
    Mirrors d rest (c.advance n) (c'.advance n) := by
  induction n generalizing c c' with
  | zero => exact h
  | succ n ih =>
    rw [advance_succ, advance_succ]
    refine ih (h.step ?_) ?_
    · exact List.ne_nil_of_length_pos (by omega)
    · rw [step_after, List.length_drop]
      omega

theorem skipBlanks (h : Mirrors d rest c c') (hr : Token.EndsLine rest) :
    Mirrors d rest c.skipBlanks c'.skipBlanks := by
  unfold Cursor.skipBlanks
  rw [h.after, (Token.takeWhile_append_stop (fun x hx => by rw [hr x hx]; rfl) c.after).1]
  exact h.advance (List.takeWhile_prefix _).length_le

theorem gapAfter (h : Mirrors d rest c c') (hr : Token.EndsLine rest) :
    isGap (c'.charAt 0) = isGap (c.charAt 0) := by
  rw [charAt_after, charAt_after, h.after]
  cases c.after with
  | cons x r => rfl
  | nil =>
    cases rest with
    | nil => rfl
    | cons x r =>
      rw [hr x rfl]
      rfl

theorem token (h : Mirrors d rest c c') (he : Mirrors d rest e e') (hr : Token.EndsLine rest)
    (kind : Token.Kind) (lexeme : List Char) :
    Token.Moved d (token file kind lexeme c e) (token file kind lexeme c' e') := by
  refine ⟨rfl, rfl, ?_, ?_, ?_, ?_, h.gap, he.gapAfter hr⟩ <;> unfold Cursor.token <;>
    dsimp only <;> split <;> simp [Span.point, h.line, h.col, he.line, he.col]

/-- The same token is read at both places. -/
theorem next (h : Mirrors d rest c c') (hr : Token.EndsLine rest)
    (hn : c.next file = (.ok t, e)) (hk : t.kind ≠ .eof) :
    ∃ t' e', c'.next file = (.ok t', e') ∧ Token.Moved d t t' ∧ Mirrors d rest e e' := by
  have hskip := h.skipBlanks hr
  rcases next_cases file c with ⟨-, he⟩ | ⟨lexeme, kind, hs, he⟩ | ⟨-, -, he⟩
  · rw [he] at hn
    cases hn
    exact absurd rfl hk
  · rw [he] at hn
    cases hn
    have hne : c.skipBlanks.after ≠ [] := by
      intro hempty
      rw [hempty] at hs
      cases hs
    have hs' : Token.scan? c'.skipBlanks.after = some (lexeme, kind) := by
      rw [hskip.after, Token.scan?_append_breaks hr.breaks hne, hs]
    obtain ⟨r, hlexeme⟩ := Token.scan?_append hs
    have hlast := hskip.advance (n := lexeme.length) (by simp [hlexeme])
    exact ⟨_, _, next_of_scan file hs', hskip.token hlast hr kind lexeme, hlast⟩
  · rw [he] at hn
    cases hn

/-- The same tokens are read at both places, up to where the first text ends. -/
theorem lex (h : Mirrors d rest c c') (hr : Token.EndsLine rest)
    (hl : c.lex file = (ts, .ok last, e)) :
    e.after = [] ∧ ∃ ts' e', List.Forall₂ (Token.Moved d) ts ts' ∧ Mirrors d rest e e' ∧
      c'.lex file = (ts' ++ (e'.lex file).1, (e'.lex file).2) := by
  induction hn : c.after.length using Nat.strong_induction_on generalizing c c' ts with
  | _ n ih =>
    rcases hnext : c.next file with ⟨err | t, e₁⟩
    · rw [lex_of_stray hnext] at hl
      cases hl
    · by_cases hk : t.kind = .eof
      · rw [lex_of_eof hnext hk] at hl
        cases hl
        obtain ⟨hempty, rfl⟩ := next_of_eof hnext hk
        refine ⟨hempty, [], c'.skipBlanks, .nil, h.skipBlanks hr, ?_⟩
        rw [lex_skipBlanks]
        rfl
      · rw [lex_of_token hnext hk] at hl
        obtain ⟨us, hus⟩ : ∃ us, e₁.lex file = (us, .ok last, e) :=
          ⟨(e₁.lex file).1, Prod.ext rfl (Prod.ext_iff.1 hl).2⟩
        rw [hus] at hl
        cases hl
        obtain ⟨t', e₁', hnext', ht, hmirror⟩ := h.next hr hnext hk
        obtain ⟨hempty, us', e', hmoved, hend, hlex⟩ :=
          ih e₁.after.length (hn ▸ length_next_lt hnext hk) hmirror hus rfl
        refine ⟨hempty, t' :: us', e', .cons ht hmoved, hend, ?_⟩
        rw [lex_of_token hnext' (ht.kind ▸ hk), hlex]
        rfl

end Mirrors

end Cursor

namespace TokenStream

open Cursor

variable {file : String} {first second : List Char} {ts us : List Token} {last end₂ : Token}

theorem lex_start_of_ofChars (h : ofChars file first = ⟨ts, .ok last⟩) :
    ∃ e, (start first).lex file = (ts, .ok last, e) := by
  unfold ofChars at h
  rcases hl : (start first).lex file with ⟨us, ending, e⟩
  rw [hl] at h
  cases h
  exact ⟨e, rfl⟩

theorem kind_ne_eof_of_mem_ofChars {t : Token} (h : t ∈ (ofChars file first).tokens) : t.kind ≠ .eof :=
  kind_ne_eof_of_mem_lexFrom h

theorem kind_of_ofChars (h : ofChars file first = ⟨ts, .ok last⟩) :
    (∀ t ∈ ts, t.kind ≠ .eof) ∧ last.kind = .eof := by
  have htokens : (ofChars file first).tokens = ts := by rw [h]
  have hending : (ofChars file first).ending = .ok last := by rw [h]
  exact ⟨fun t ht => kind_ne_eof_of_mem_ofChars (htokens ▸ ht), lexFrom_ending (Nat.le_refl _) hending⟩

/-- **The tokens of two texts with a newline between them** are those of the first, a newline, and
those of the second further down. -/
theorem ofChars_join (h₁ : ofChars file first = ⟨ts, .ok last⟩)
    (h₂ : ofChars file second = ⟨us, .ok end₂⟩) :
    ∃ d ts' newline us' last', List.Forall₂ (Token.Moved 0) ts ts' ∧ newline.kind = .newline ∧
      List.Forall₂ (Token.Moved d) us us' ∧
      ofChars file (first ++ '\n' :: second) = ⟨ts' ++ newline :: us', .ok last'⟩ := by
  obtain ⟨e, hl₁⟩ := lex_start_of_ofChars h₁
  obtain ⟨e₂, hl₂⟩ := lex_start_of_ofChars h₂
  have hbehind : Token.EndsLine ('\n' :: second) := fun c hc => (Option.some.inj hc).symm
  have hfirst : Mirrors 0 ('\n' :: second) (start first) (start (first ++ '\n' :: second)) :=
    ⟨rfl, rfl, rfl, rfl⟩
  obtain ⟨hempty, ts', m, hts, hm, hlex⟩ := hfirst.lex hbehind hl₁
  have hafter : m.after = ['\n'] ++ second := by rw [hm.after, hempty]; rfl
  -- Behind the newline stands the second text, at the start of a line.
  have hsecond : Mirrors m.line [] (start second) (m.advance 1) := by
    rw [advance_succ, advance_zero]
    unfold step
    rw [hafter]
    refine ⟨(List.append_nil _).symm, ?_, rfl, rfl⟩
    show m.line + 1 = 1 + m.line
    omega
  obtain ⟨hempty₂, us', m₂, hus, hm₂, hlex₂⟩ := hsecond.lex (fun _ hc => by cases hc) hl₂
  have hafter₂ : m₂.skipBlanks.after = [] := by
    rw [skipBlanks_after, hm₂.after, hempty₂]
    rfl
  have hscan : Token.scan? (['\n'] ++ second) = some (['\n'], .newline) := rfl
  obtain ⟨newline, hkind, hnewline⟩ : ∃ t : Token, t.kind = .newline ∧
      m.next file = (.ok t, m.advance 1) := ⟨_, rfl, next_lexeme hafter hscan⟩
  rw [lex_of_eof (next_of_empty file hafter₂) rfl, List.append_nil] at hlex₂
  refine ⟨m.line, ts', newline, us', token file .eof [] m₂.skipBlanks m₂.skipBlanks, hts, hkind, hus,
    ?_⟩
  unfold ofChars
  rw [hlex, lex_of_token hnewline (by rw [hkind]; decide), hlex₂]

end TokenStream

end Reckon
