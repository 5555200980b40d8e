import Reckon.Proofs.Lexing.Lossless
import Reckon.Proofs.Parsing.Joined
import Reckon.Proofs.Parsing.Traced

/-!
# Tokens on demand

A parser asks for one token at a time.  Wherever it stands, what it is given next is what a cursor that
has read no further would read, or would see by looking ahead (`Ahead.Within.on_demand`); so a character that
starts no token is met only by a parser that gets as far.

A parser can give up before, and then it refuses the tokens.  The refusal has the place of a token that
was read, and all of these stand before the character.  A parser that does not give up cannot succeed
either, since a program goes up to the end of input.  So parsing fails whenever reading all tokens at
once does, with the same error or with a refusal that starts before it (`Node.parse_on_demand`).
-/

namespace Reckon

/-! ## The cursor behind a parser -/

/-- The cursors that are met by reading tokens of a text. -/
inductive Cursor.Reads (file : String) (c : Cursor) : Cursor → Prop where
  | refl : Reads file c c
  | next {d e : Cursor} {t : Token} (reads : Reads file c d) (token : d.next file = (.ok t, e)) :
      Reads file c e

namespace Ahead

variable {file source : String} {c d : Cursor} {a b : Ahead} {t : Token} {e : Error}

/-- The tokens behind the current one are those that the cursor has still to read. -/
structure FedBy (file : String) (c : Cursor) (a : Ahead) : Prop where
  rest : a.rest = (c.lex file).1
  ending : a.ending = (c.lex file).2.1

/-- Looking behind the current token is looking ahead with the cursor. -/
theorem FedBy.following_eq (h : a.FedBy file c) : a.following = c.peek file := by
  unfold following
  rw [h.rest, h.ending, Cursor.peek_eq_next]
  rcases hnext : c.next file with ⟨e | t, d⟩
  · rw [Cursor.lex_of_stray hnext]
  · by_cases ht : t.kind = .eof
    · rw [Cursor.lex_of_eof hnext ht]
    · rw [Cursor.lex_of_token hnext ht]

/-- Passing the current token is reading one with the cursor. -/
theorem FedBy.advance_eq (h : a.FedBy file c) (hk : a.current.kind ≠ .eof) :
    a.advance.map Ahead.current = (c.next file).1 := by
  unfold advance
  rw [if_neg hk, h.rest, h.ending]
  rcases hnext : c.next file with ⟨e | t, d⟩
  · rw [Cursor.lex_of_stray hnext]
    rfl
  · by_cases ht : t.kind = .eof
    · rw [Cursor.lex_of_eof hnext ht]
      rfl
    · rw [Cursor.lex_of_token hnext ht]
      rfl

theorem kind_ne_eof_of_advance (hb : a.advance = .ok b) (hk : b.current.kind ≠ .eof) :
    a.current.kind ≠ .eof := by
  intro ha
  rw [Ahead.advance, if_pos ha] at hb
  cases hb
  exact hk ha

/-- Before the end of input the cursor goes on feeding. -/
theorem FedBy.advance (h : a.FedBy file c) (hb : a.advance = .ok b) (hk : b.current.kind ≠ .eof) :
    ∃ d, c.next file = (.ok b.current, d) ∧ b.FedBy file d := by
  have hne := kind_ne_eof_of_advance hb hk
  have hread := h.advance_eq hne
  rw [hb] at hread
  rcases hnext : c.next file with ⟨e | t, d⟩
  · rw [hnext] at hread
    cases hread
  · rw [hnext] at hread
    cases hread
    have hlex := Cursor.lex_of_token hnext hk
    refine ⟨d, rfl, ?_⟩
    have hrest := h.rest
    have hending := h.ending
    rw [hlex] at hrest hending
    rcases advance_cases hb with ⟨ha, -⟩ | ⟨-, u, rest, hcons, rfl⟩ | ⟨-, hnil, -⟩
    · exact absurd ha hne
    · rw [hcons] at hrest
      cases hrest
      exact ⟨rfl, hending⟩
    · rw [hnil] at hrest
      cases hrest

/-- A parser starts with the first token that is read. -/
theorem fedBy_of_start (h : start (TokenStream.ofChars file source.toList) = .ok a)
    (hk : a.current.kind ≠ .eof) :
    ∃ c, (Cursor.start source.toList).next file = (.ok a.current, c) ∧ a.FedBy file c := by
  have hstream : TokenStream.ofChars file source.toList =
      ⟨((Cursor.start source.toList).lex file).1, ((Cursor.start source.toList).lex file).2.1⟩ := rfl
  rw [hstream] at h
  rcases hnext : (Cursor.start source.toList).next file with ⟨e | t, d⟩
  · rw [Cursor.lex_of_stray hnext] at h
    cases h
  · by_cases ht : t.kind = .eof
    · rw [Cursor.lex_of_eof hnext ht] at h
      cases h
      exact absurd ht hk
    · rw [Cursor.lex_of_token hnext ht] at h
      cases h
      exact ⟨d, rfl, ⟨rfl, rfl⟩⟩

/-- Wherever a parser of a text stands before the end of input, the token there is the last one that a
cursor has read, and this cursor feeds the parser. -/
theorem Within.fedBy (h : Within file source a) (hk : a.current.kind ≠ .eof) :
    ∃ c d, (Cursor.start source.toList).Reads file c ∧ c.next file = (.ok a.current, d) ∧
      a.FedBy file d := by
  obtain ⟨first, hstart, hreaches⟩ := h
  induction hreaches with
  | refl =>
    obtain ⟨d, hnext, hfed⟩ := fedBy_of_start hstart hk
    exact ⟨_, d, .refl, hnext, hfed⟩
  | @tail a b hab hb ih =>
    obtain ⟨c, d, hreads, hnext, hfed⟩ := ih (kind_ne_eof_of_advance hb hk)
    obtain ⟨e, hnext', hfed'⟩ := hfed.advance hb hk
    exact ⟨d, e, hreads.next hnext, hnext', hfed'⟩

/-- **Tokens are read on demand.**  Passing the current token is reading one with the cursor that has read
up to it, and looking behind it is looking ahead with that cursor. -/
theorem Within.on_demand (h : Within file source a) (hk : a.current.kind ≠ .eof) :
    ∃ c d, (Cursor.start source.toList).Reads file c ∧ c.next file = (.ok a.current, d) ∧
      a.following = d.peek file ∧ a.advance.map Ahead.current = (d.next file).1 := by
  obtain ⟨c, d, hreads, hnext, hfed⟩ := h.fedBy hk
  exact ⟨c, d, hreads, hnext, hfed.following_eq, hfed.advance_eq hk⟩

end Ahead

/-! ## Places in order -/

/-- An offset that does not stand behind another one is on an earlier line, or on the same line and not at
a later column. -/
theorem Text.place_le (source : List Char) {p q : Nat} (h : p ≤ q) :
    lineAt source p < lineAt source q ∨
      lineAt source p = lineAt source q ∧ columnAt source p ≤ columnAt source q := by
  obtain ⟨between, hsplit⟩ : source.take p <+: source.take q := List.take_prefix_take_left h
  unfold lineAt columnAt
  rw [← hsplit, List.count_append]
  by_cases hline : '\n' ∈ between
  · have hcount := List.count_pos_iff.2 hline
    exact .inl (by omega)
  · have hnone : ∀ c ∈ between.reverse, (c != '\n') = true := by
      intro c hc
      rw [bne_iff_ne]
      rintro rfl
      exact hline (List.mem_reverse.1 hc)
    have hlength : ((source.take p ++ between).rtakeWhile (· != '\n')).length =
        between.length + ((source.take p).rtakeWhile (· != '\n')).length := by
      unfold List.rtakeWhile
      rw [List.reverse_append, List.takeWhile_append_of_pos hnone]
      simp only [List.length_reverse, List.length_append]
    rw [List.count_eq_zero_of_not_mem hline, hlength]
    exact .inr ⟨by omega, by omega⟩

/-- The span is in the same text as `t` and does not start behind it. -/
def Span.StartsBy (s t : Span) : Prop :=
  s.file = t.file ∧
    (s.startLine < t.startLine ∨ s.startLine = t.startLine ∧ s.startCol ≤ t.startCol)

theorem Token.Exact.startsBy {file : String} {source : List Char} {t u : Token}
    (ht : t.Exact file source) (hu : u.Exact file source) (h : t.offset ≤ u.offset) :
    t.span.StartsBy u.span := by
  refine ⟨ht.file.trans hu.file.symm, ?_⟩
  rw [ht.startLine, ht.startCol, hu.startLine, hu.startCol]
  rcases Text.place_le source h with hline | ⟨hline, hcol⟩
  · exact .inl (by omega)
  · exact .inr ⟨by omega, by omega⟩

/-- No token of a text stands behind the last one. -/
theorem Token.Covers.offset_le_getLast {file : String} {source : List Char} {p q : Nat}
    {ts : List Token} (h : Covers file source p ts q) {t last : Token} (ht : t ∈ ts)
    (hlast : ts.getLast? = some last) : t.offset ≤ last.offset := by
  obtain ⟨init, rfl⟩ := List.getLast?_eq_some_iff.1 hlast
  obtain ⟨-, hpairs⟩ := h.offsets
  rw [List.map_append, List.pairwise_append] at hpairs
  rcases List.mem_append.1 ht with ht | ht
  · exact Nat.le_of_lt (hpairs.2.2 _ (List.mem_map_of_mem ht) _ (by simp))
  · rw [List.mem_singleton.1 ht]

/-! ## Parsing fails where reading does -/

namespace Node

variable {file source : String} {e : Error}

/-- A text that cannot be read is no program. -/
theorem exists_parse_error (h : (TokenStream.ofChars file source.toList).ending = .error e) :
    ∃ e', parse file source = .error e' := by
  cases hparse : parse file source with
  | error e' => exact ⟨e', rfl⟩
  | ok program =>
    obtain ⟨ts, last, -, -, hstream, -⟩ := lines_of_parse hparse
    rw [hstream] at h
    cases h

/-- What parsing a text reports is the error that its tokens end in, or a refusal at one of them or at the
end of input. -/
theorem parse_error_cases (h : parse file source = .error e) :
    (TokenStream.ofChars file source.toList).ending = .error e ∨
      Refused (fun place => ∃ t : Token, place = t.span.start ∧
        (t ∈ (TokenStream.ofChars file source.toList).tokens ∨
          (TokenStream.ofChars file source.toList).ending = .ok t)) e := by
  refine (traced_of_tokens ?_ ?_).2 e h
  · exact fun t ht => ⟨t, rfl, .inl ht⟩
  · exact fun t ht => ⟨t, rfl, .inr ht⟩

/-- **Parsing on demand agrees with reading everything first.**  If all tokens of a text can be read,
parsing it fails only with a refusal.  If they cannot, because of a symbol at some position, parsing
fails as well: with the very same error, or with a refusal that starts no later than the last of the
tokens, all of which stand before that position.  In both cases a parser is given, wherever it passes a
token or looks behind it, what a cursor that has read up to there reads or sees. -/
theorem parse_on_demand (file source : String) :
    (∀ ts, (TokenStream.ofChars file source.toList).complete = .ok ts →
      ∀ e, parse file source = .error e → ∃ fault, e.cause = .grammar fault) ∧
    (∀ e, (TokenStream.ofChars file source.toList).complete = .error e →
      ∃ symbol position, e.cause = .unexpectedSymbol symbol position ∧
        ∃ e', parse file source = .error e' ∧
          (e' = e ∨ ∃ fault s last, e'.cause = .grammar fault ∧ e'.span = some s ∧
            (TokenStream.ofChars file source.toList).tokens.getLast? = some last ∧
            (∀ t ∈ (TokenStream.ofChars file source.toList).tokens,
              t.offset ≤ last.offset ∧ t.offset < position) ∧
            s.StartsBy last.span)) ∧
    ∀ a, Ahead.Within file source a → a.current.kind ≠ .eof →
      ∃ c d, (Cursor.start source.toList).Reads file c ∧ c.next file = (.ok a.current, d) ∧
        a.following = d.peek file ∧ a.advance.map Ahead.current = (d.next file).1 := by
  obtain ⟨p, hcovers, hcloses⟩ := TokenStream.ofChars_covers file source.toList
  refine ⟨?_, ?_, fun a ha hk => ha.on_demand hk⟩
  · intro ts hts e he
    rcases parse_error_cases he with hend | ⟨fault, hcause, -⟩
    · rw [TokenStream.complete, hend] at hts
      cases hts
    · exact ⟨fault, hcause⟩
  · intro e he
    have hend : (TokenStream.ofChars file source.toList).ending = .error e := by
      cases hend : (TokenStream.ofChars file source.toList).ending with
      | ok t =>
        rw [TokenStream.complete, hend] at he
        cases he
      | error e' =>
        rw [TokenStream.complete, hend] at he
        cases he
        rfl
    rw [hend] at hcloses
    obtain ⟨c, hstray⟩ := hcloses
    obtain ⟨e', he'⟩ := exists_parse_error hend
    refine ⟨_, _, hstray.cause, e', he', ?_⟩
    rcases parse_error_cases he' with hend' | ⟨fault, hcause, s, hs, t, hstart, hread⟩
    · rw [hend] at hend'
      cases hend'
      exact .inl rfl
    · have ht : t ∈ (TokenStream.ofChars file source.toList).tokens := by
        rcases hread with ht | hok
        · exact ht
        · rw [hend] at hok
          cases hok
      obtain ⟨last, hlast⟩ := Option.ne_none_iff_exists'.1
        (mt List.getLast?_eq_none_iff.1 (List.ne_nil_of_mem ht))
      refine .inr ⟨fault, s, last, hcause, hs, hlast, fun u hu => ⟨?_, ?_⟩, ?_⟩
      · exact hcovers.offset_le_getLast hu hlast
      · exact Int.ofNat_lt.2 (hcovers.offsets.1 u hu).2
      · have hby := (hcovers.exact_of_mem ht).startsBy
          (hcovers.exact_of_mem (List.mem_of_getLast? hlast)) (hcovers.offset_le_getLast ht hlast)
        unfold Span.start at hstart
        simp only [Prod.mk.injEq] at hstart
        obtain ⟨hfile, hline, hcol⟩ := hstart
        rw [Span.StartsBy, hfile, hline, hcol]
        exact hby

/-- The parser of the text gives up at its second word, before it comes to the stray symbol. -/
theorem parse_on_demand_gives_up :
    ∃ e e', (TokenStream.ofChars "<input>" "true true #".toList).complete = .error e ∧
      e.cause = .unexpectedSymbol "#" 10 ∧ parse "<input>" "true true #" = .error e' ∧
      ∃ fault s, ∃ last : Token, e'.cause = .grammar fault ∧ e'.span = some s ∧
        last.offset < (10 : Int) ∧ s.StartsBy last.span := by
  have hstray : ∃ e, (TokenStream.ofChars "<input>" "true true #".toList).complete = .error e ∧
      e.cause = .unexpectedSymbol "#" 10 := ⟨_, rfl, rfl⟩
  have hgrammar : ((parse "<input>" "true true #").map fun _ => ()).mapError (·.cause.code) =
      .error "E200" := by
    decide +kernel
  obtain ⟨e, he, hcause⟩ := hstray
  obtain ⟨symbol, position, hcause', e', he', hsame | ⟨fault, s, last, hfault, hs, hlast, hbefore, hby⟩⟩ :=
    (parse_on_demand "<input>" "true true #").2.1 e he
  · obtain ⟨cause, place⟩ := e
    subst hcause
    rw [he', hsame] at hgrammar
    have hcode : "E100" = "E200" := Except.error.inj hgrammar
    exact absurd hcode (by decide)
  · rw [hcause] at hcause'
    cases hcause'
    exact ⟨e, e', he, hcause, he', fault, s, last, hfault, hs,
      (hbefore last (List.mem_of_getLast? hlast)).2, hby⟩

end Node

end Reckon
