import Reckon.Proofs.Lexing.Joined
import Reckon.Proofs.Lexing.Position

/-!
# Reading loses nothing

A text is read as tokens with nothing but skipped characters between them (`Token.Covers`), up to its end
or up to the first character that starts no token.  Each token is the longest lexeme at its place, and
its span says where that place is (`Token.Exact`).

What a lexeme is does not depend on how it is looked for (`Token.Lexeme`): digits with an optional
fraction, a word, or one of the signs.  Signs are looked for in a fixed order and the first one that fits
is taken; it is the longest because none stands behind one that it starts with.
-/

namespace Reckon

namespace Token

/-! ## The longest lexeme -/

/-- A numeral, a word or a sign, with the kind of token that it is. -/
inductive Lexeme : List Char → Kind → Prop where
  | numeral (n : Numeral) : Lexeme n.chars .number
  | word {c : Char} {r : List Char} (starts : Text.isNameStart c = true)
      (goesOn : ∀ x ∈ r, Text.isNamePart x = true) : Lexeme (c :: r) (wordKind (c :: r))
  | sign {s : List Char × Kind} (listed : s ∈ Kind.signs) : Lexeme s.1 s.2

variable {cs l l' : List Char} {k k' : Kind}

theorem Lexeme.ne_nil (h : Lexeme l k) : l ≠ [] := by
  cases h with
  | numeral n =>
    unfold Numeral.chars
    exact List.append_ne_nil_of_left_ne_nil n.whole_ne_nil _
  | word => exact List.cons_ne_nil _ _
  | sign listed => exact signs_ne_nil _ listed

/-- The characters of a lexeme are those of names, points, or those of its sign. -/
theorem Lexeme.mem_cases (h : Lexeme l k) {c : Char} (hc : c ∈ l) :
    Text.isNamePart c = true ∨ c = '.' ∨ ∃ s ∈ Kind.signs, s.2 = k ∧ c ∈ s.1 := by
  cases h with
  | numeral n =>
    unfold Numeral.chars at hc
    rcases List.mem_append.1 hc with hc | hc
    · exact .inl (isNamePart_of_isDigit (n.whole_digits _ hc))
    · cases hf : n.fraction with
      | none => simp [hf] at hc
      | some ds =>
        simp only [hf, List.mem_cons] at hc
        rcases hc with hc | hc
        · exact .inr (.inl hc)
        · exact .inl (isNamePart_of_isDigit (n.fraction_digits ds hf _ hc))
  | word starts goesOn =>
    rcases List.mem_cons.1 hc with rfl | hc
    · exact .inl (Text.isNamePart_of_isNameStart starts)
    · exact .inl (goesOn _ hc)
  | @sign s listed => exact .inr (.inr ⟨s, listed, rfl, hc⟩)

/-- Only the sign for it has a newline. -/
theorem Lexeme.newline_notMem (h : Lexeme l k) (hk : k ≠ .newline) : '\n' ∉ l := by
  intro hmem
  rcases h.mem_cases hmem with hpart | hpoint | ⟨s, hs, rfl, hmem⟩
  · exact absurd hpart (by decide)
  · exact absurd hpoint (by decide)
  · have hall : ∀ s ∈ Kind.signs, s.2 ≠ .newline → '\n' ∉ s.1 := by decide
    exact hall s hs hk hmem

/-- No lexeme has a skipped character. -/
theorem Lexeme.isSkipped_of_mem (h : Lexeme l k) {c : Char} (hc : c ∈ l) : isSkipped c = false := by
  cases hskip : isSkipped c with
  | false => rfl
  | true =>
    have hblank : c = ' ' ∨ c = '\t' ∨ c = '\r' ∨ c = '\x0c' ∨ c = '\x0b' := by
      simpa [isSkipped, or_assoc] using hskip
    have hbreaks : Text.isNamePart c = false ∧ c ≠ '.' := by
      rcases hblank with rfl | rfl | rfl | rfl | rfl <;> decide
    rcases h.mem_cases hc with hpart | hpoint | ⟨s, hs, -, hmem⟩
    · rw [hbreaks.1] at hpart
      cases hpart
    · exact absurd hpoint hbreaks.2
    · have hall : ∀ s ∈ Kind.signs, s.1.all (fun c => !isSkipped c) = true := by decide
      have hnot := List.all_eq_true.1 (hall s hs) c hmem
      rw [hskip] at hnot
      cases hnot

/-- A lexeme that is no numeral and no word is a sign. -/
theorem Lexeme.mem_signs (h : Lexeme l k) (hk : k ∉ [.number, .identifier, .reservedValue]) :
    (l, k) ∈ Kind.signs := by
  cases h with
  | numeral n => exact absurd (by decide) hk
  | word =>
    refine absurd ?_ hk
    unfold wordKind
    split <;> decide
  | sign listed => exact listed

/-- The one lexeme of a newline is the newline. -/
theorem Lexeme.eq_newline (h : Lexeme l .newline) : l = ['\n'] := by
  have hall : ∀ s ∈ Kind.signs, s.2 = .newline → s.1 = ['\n'] := by decide
  exact hall _ (h.mem_signs (by decide)) rfl

theorem prefix_numeral (n : Numeral) (rest : List Char) : n.chars <+: numeral (n.chars ++ rest) := by
  unfold numeral Numeral.chars
  rw [List.append_assoc, List.takeWhile_append_of_pos n.whole_digits,
    List.dropWhile_append_of_pos n.whole_digits]
  cases hf : n.fraction with
  | none =>
    rw [List.append_nil, List.append_assoc]
    exact List.prefix_append _ _
  | some ds =>
    have hds : ∀ c ∈ ds, c.isDigit = true := n.fraction_digits ds hf
    simp only [List.cons_append]
    rw [List.takeWhile_cons_of_neg (by decide), List.dropWhile_cons_of_neg (by decide)]
    simp only [List.append_nil]
    rw [List.takeWhile_append_of_pos hds, ← List.cons_append, ← List.append_assoc]
    exact List.prefix_append _ _

/-- Of two signs that fit, the one that is found first is not the shorter one. -/
theorem length_le_of_signAt? {s t : List Char × Kind} (h : signAt? cs = some t) (hs : s ∈ Kind.signs)
    (hp : s.1 <+: cs) : s.1.length ≤ t.1.length := by
  obtain ⟨ht, earlier, later, hsplit, hnone⟩ := List.find?_eq_some_iff_append.1 h
  have htp : t.1 <+: cs := List.isPrefixOf_iff_prefix.1 ht
  rcases List.prefix_or_prefix_of_prefix hp htp with hst | hts
  · exact hst.length_le
  · -- Only what comes after `t` could start with it, and nothing there does.
    rw [hsplit] at hs
    rcases List.mem_append.1 hs with hs | hs
    · have hfit := hnone s hs
      rw [List.isPrefixOf_iff_prefix.2 hp] at hfit
      cases hfit
    · rcases List.mem_cons.1 hs with rfl | hs
      · exact Nat.le_refl _
      · have hpairs := Kind.signs_longest_first
        rw [hsplit] at hpairs
        have hnot := (List.pairwise_cons.1 (List.pairwise_append.1 hpairs).2.1).1 s hs
        exact absurd (List.isPrefixOf_iff_prefix.2 hts) hnot

theorem exists_signAt? {s : List Char × Kind} (hs : s ∈ Kind.signs) (hp : s.1 <+: cs) :
    ∃ t, signAt? cs = some t := by
  cases h : signAt? cs with
  | some t => exact ⟨t, rfl⟩
  | none =>
    have hnone := List.find?_eq_none.1 h s hs
    exact absurd (List.isPrefixOf_iff_prefix.2 hp) hnone

/-- Where a lexeme stands, one is found that is at least as long. -/
theorem Lexeme.scan? (h : Lexeme l k) (hp : l <+: cs) :
    ∃ l' k', scan? cs = some (l', k') ∧ l.length ≤ l'.length := by
  obtain ⟨rest, rfl⟩ := hp
  cases h with
  | numeral n =>
    obtain ⟨c, others, hchars⟩ := List.exists_cons_of_ne_nil (Lexeme.numeral n).ne_nil
    have hc : c.isDigit = true := by
      obtain ⟨w, ws, hw⟩ := List.exists_cons_of_ne_nil n.whole_ne_nil
      have hhead : n.chars.head? = some w := by
        unfold Numeral.chars
        rw [hw]
        rfl
      rw [hchars] at hhead
      cases hhead
      exact n.whole_digits c (by rw [hw]; exact List.mem_cons_self)
    refine ⟨Token.numeral (n.chars ++ rest), .number, ?_, (prefix_numeral n rest).length_le⟩
    rw [hchars, List.cons_append]
    simp only [Token.scan?, hc, if_true]
  | @word c r starts goesOn =>
    have hd : c.isDigit = false := by
      cases hd : c.isDigit with
      | false => rfl
      | true =>
        rw [isNameStart_of_isDigit hd] at starts
        cases starts
    have hall : ∀ x ∈ c :: r, Text.isNamePart x = true :=
      List.forall_mem_cons.2 ⟨Text.isNamePart_of_isNameStart starts, goesOn⟩
    have hword : (c :: r).length ≤ (Token.word (c :: r ++ rest)).length := by
      rw [Token.word, List.takeWhile_append_of_pos hall, List.length_append]
      exact Nat.le_add_right _ _
    refine ⟨Token.word (c :: r ++ rest), wordKind (Token.word (c :: r ++ rest)), ?_, hword⟩
    rw [List.cons_append]
    simp only [Token.scan?, hd, starts, if_true, Bool.false_eq_true, if_false]
  | @sign s listed =>
    have hp : s.1 <+: s.1 ++ rest := List.prefix_append _ _
    obtain ⟨t, ht⟩ := exists_signAt? listed hp
    refine ⟨t.1, t.2, ?_, length_le_of_signAt? ht listed hp⟩
    obtain ⟨c, others, hchars⟩ := List.exists_cons_of_ne_nil (signs_ne_nil s listed)
    obtain ⟨hd, hn⟩ := signs_head s listed c (by rw [hchars]; rfl)
    rw [hchars, List.cons_append] at ht ⊢
    simp only [Token.scan?, hd, hn]
    exact ht

/-- The numeral at the front of a text that starts with a digit. -/
theorem lexeme_numeral {c : Char} {r : List Char} (hc : c.isDigit = true) :
    Lexeme (numeral (c :: r)) .number := by
  have hwhole : (c :: r).takeWhile Char.isDigit ≠ [] := by
    rw [List.takeWhile_cons_of_pos hc]
    exact List.cons_ne_nil _ _
  have hdigits : ∀ cs : List Char, ∀ x ∈ cs.takeWhile Char.isDigit, x.isDigit = true :=
    fun cs x hx => List.mem_takeWhile_imp hx
  unfold numeral
  split
  · rename_i rest _
    refine Lexeme.numeral ⟨_, some (rest.takeWhile Char.isDigit), hwhole, hdigits _, ?_⟩
    intro ds hds
    cases hds
    exact hdigits rest
  · exact Lexeme.numeral ⟨_, none, hwhole, hdigits _, fun ds hds => by cases hds⟩

/-- What is found is a lexeme. -/
theorem lexeme_of_scan? (h : scan? cs = some (l, k)) : Lexeme l k := by
  unfold scan? at h
  split at h
  · cases h
  · rename_i c r
    split at h
    · rename_i hc
      cases h
      exact lexeme_numeral hc
    · split at h
      · rename_i hs
        cases h
        have hword : word (c :: r) = c :: r.takeWhile Text.isNamePart :=
          List.takeWhile_cons_of_pos (Text.isNamePart_of_isNameStart hs)
        rw [hword]
        exact .word hs fun x hx => List.mem_takeWhile_imp hx
      · exact .sign (List.mem_of_find?_eq_some h)

/-- It is the longest one. -/
theorem length_le_of_scan? (h : scan? cs = some (l, k)) (hl : Lexeme l' k') (hp : l' <+: cs) :
    l'.length ≤ l.length := by
  obtain ⟨l₁, k₁, hscan, hle⟩ := hl.scan? hp
  rw [h] at hscan
  cases hscan
  exact hle

/-- Where nothing is found, no lexeme stands. -/
theorem not_prefix_of_scan? (h : scan? cs = none) (hl : Lexeme l k) : ¬ l <+: cs := by
  intro hp
  obtain ⟨l₁, k₁, hscan, -⟩ := hl.scan? hp
  rw [h] at hscan
  cases hscan

/-! ## Tokens at their places -/

/-- The token is the longest lexeme at its offset, and its span goes from the first character of the
lexeme to the last. -/
structure Exact (file : String) (source : List Char) (t : Token) : Prop where
  file : t.span.file = file
  lexeme : Lexeme t.text.toList t.kind
  stands : t.text.toList <+: source.drop t.offset
  longest : ∀ cs k, Lexeme cs k → cs <+: source.drop t.offset → cs.length ≤ t.text.length
  startLine : t.span.startLine = Text.lineAt source t.offset
  startCol : t.span.startCol = Text.columnAt source t.offset
  endLine : t.span.endLine = Text.lineAt source (t.offset + t.text.length - 1)
  endCol : t.span.endCol = Text.columnAt source (t.offset + t.text.length - 1)

/-- From the one offset to the other the text is these tokens in order, with nothing but skipped
characters before each of them and behind the last. -/
inductive Covers (file : String) (source : List Char) : Nat → List Token → Nat → Prop where
  | nil {p q : Nat} (le : p ≤ q) (blank : ∀ c ∈ source.extract p q, isSkipped c = true) :
      Covers file source p [] q
  | cons {p q : Nat} {t : Token} {ts : List Token} (le : p ≤ t.offset)
      (blank : ∀ c ∈ source.extract p t.offset, isSkipped c = true) (exact : t.Exact file source)
      (rest : Covers file source (t.offset + t.text.length) ts q) : Covers file source p (t :: ts) q

/-- The token is the end of input, and stands behind the last character. -/
structure AtEnd (file : String) (source : List Char) (t : Token) : Prop where
  kind : t.kind = .eof
  text : t.text = ""
  offset : t.offset = source.length
  file : t.span.file = file
  startLine : t.span.startLine = Text.lineAt source source.length
  startCol : t.span.startCol = Text.columnAt source source.length

/-- The error is about the character at this offset, which starts no token. -/
structure Stray (file : String) (source : List Char) (p : Nat) (c : Char) (e : Error) : Prop where
  stands : source[p]? = some c
  notSkipped : isSkipped c = false
  noLexeme : ∀ cs k, Lexeme cs k → ¬ cs <+: source.drop p
  cause : e.cause = .unexpectedSymbol (String.singleton c) p
  span : e.span = some (Span.point file (Text.lineAt source p) (Text.columnAt source p))

/-- How a text that is covered up to an offset ends there: with the end of input, or with an error. -/
def Closes (file : String) (source : List Char) (p : Nat) : Except Error Token → Prop
  | .ok t => p = source.length ∧ t.AtEnd file source
  | .error e => ∃ c, Stray file source p c e

namespace Covers

variable {file : String} {source : List Char} {p q : Nat} {t : Token} {ts : List Token}

theorem le (h : Covers file source p ts q) : p ≤ q := by
  induction h with
  | nil le _ => exact le
  | cons le _ _ _ ih => omega

theorem exact_of_mem (h : Covers file source p ts q) (ht : t ∈ ts) : t.Exact file source := by
  induction h with
  | nil => cases ht
  | cons _ _ exact _ ih =>
    rcases List.mem_cons.1 ht with rfl | ht
    · exact exact
    · exact ih ht

/-- Each token starts behind the one before it, and the last one before the end. -/
theorem offsets (h : Covers file source p ts q) :
    (∀ t ∈ ts, p ≤ t.offset ∧ t.offset < q) ∧ (ts.map Token.offset).Pairwise (· < ·) := by
  induction h with
  | nil => exact ⟨fun t ht => absurd ht List.not_mem_nil, .nil⟩
  | @cons p q t ts le _ exact rest ih =>
    have hpos : 0 < t.text.length := by
      rw [← String.length_toList]
      exact List.length_pos_iff.2 exact.lexeme.ne_nil
    have hend := rest.le
    obtain ⟨hbounds, hpairs⟩ := ih
    constructor
    · intro u hu
      rcases List.mem_cons.1 hu with rfl | hu
      · omega
      · have hu := hbounds u hu
        omega
    · rw [List.map_cons, List.pairwise_cons]
      refine ⟨fun n hn => ?_, hpairs⟩
      obtain ⟨u, hu, rfl⟩ := List.mem_map.1 hn
      have hu := hbounds u hu
      omega

end Covers

end Token

namespace Cursor

variable {file : String} {source : List Char} {c : Cursor}

theorem isSkipped_of_skipBlanks {x : Char} {r : List Char} (h : c.skipBlanks.after = x :: r) :
    Token.isSkipped x = false := by
  have hnot := List.head?_dropWhile_not Token.isSkipped c.after
  rw [← skipBlanks_after, h] at hnot
  simpa using hnot

/-- What is passed on the way to the next token is skipped. -/
theorem skipBlanks_extract (h : Counts source c) :
    c.pos ≤ c.skipBlanks.pos ∧
      ∀ x ∈ source.extract c.pos c.skipBlanks.pos, Token.isSkipped x = true := by
  have hpos : c.skipBlanks.pos = c.pos + (c.after.takeWhile Token.isSkipped).length :=
    pos_advance (List.takeWhile_prefix _).length_le
  refine ⟨by omega, fun x hx => ?_⟩
  rw [List.extract_eq_take_drop, hpos, Nat.add_sub_cancel_left, ← h.after_eq] at hx
  rw [← List.prefix_iff_eq_take.1 (List.takeWhile_prefix Token.isSkipped)] at hx
  exact List.mem_takeWhile_imp hx

/-- The last character of a lexeme on one line is as many columns further on. -/
theorem lastAt (h : Counts source c) {lexeme rest : List Char} (hrest : c.after = lexeme ++ rest)
    (hne : lexeme ≠ []) (hline : '\n' ∉ lexeme) :
    Text.lineAt source (c.pos + lexeme.length - 1) = c.line ∧
      Text.columnAt source (c.pos + lexeme.length - 1) = c.col + lexeme.length - 1 := by
  have hpos : 0 < lexeme.length := List.length_pos_iff.2 hne
  have hafter : c.after = lexeme.dropLast ++ (lexeme.getLast hne :: rest) := by
    rw [hrest, List.append_cons, List.dropLast_append_getLast]
  have hcount : lexeme.dropLast.length = lexeme.length - 1 := List.length_dropLast
  have hcursor := h.advance lexeme.dropLast.length
  have hoffset : (c.advance lexeme.dropLast.length).pos = c.pos + lexeme.length - 1 := by
    rw [pos_advance (by rw [hafter, List.length_append]; omega)]
    omega
  obtain ⟨hcol, hsame⟩ := advance_col hafter fun hmem => hline (List.dropLast_subset _ hmem)
  rw [← hoffset, ← hcursor.line_eq, ← hcursor.col_eq]
  exact ⟨hsame, by omega⟩

/-- A lexeme that is found makes an exact token. -/
theorem exact_token (file : String) (h : Counts source c) {lexeme : List Char} {kind : Token.Kind}
    (hs : Token.scan? c.after = some (lexeme, kind)) :
    (token file kind lexeme c (c.advance lexeme.length)).Exact file source := by
  have hlexeme := Token.lexeme_of_scan? hs
  obtain ⟨rest, hrest⟩ := Token.scan?_append hs
  have htext : (token file kind lexeme c (c.advance lexeme.length)).text.toList = lexeme :=
    String.toList_ofList
  have hlength : (token file kind lexeme c (c.advance lexeme.length)).text.length = lexeme.length :=
    String.length_ofList
  have hafter : source.drop c.pos = c.after := h.after_eq.symm
  have hstart := token_start file kind lexeme c (c.advance lexeme.length)
  -- The end: a newline ends where it starts, and every other lexeme stays on its line.
  have hend : (token file kind lexeme c (c.advance lexeme.length)).span.endLine =
        Text.lineAt source (c.pos + lexeme.length - 1) ∧
      (token file kind lexeme c (c.advance lexeme.length)).span.endCol =
        Text.columnAt source (c.pos + lexeme.length - 1) := by
    by_cases hk : kind = .newline
    · subst hk
      obtain rfl := hlexeme.eq_newline
      exact ⟨congrArg Nat.cast h.line_eq, congrArg Nat.cast h.col_eq⟩
    · have hline := hlexeme.newline_notMem hk
      obtain ⟨hlastLine, hlastCol⟩ := lastAt h hrest hlexeme.ne_nil hline
      obtain ⟨hcol, hsame⟩ := advance_col hrest hline
      obtain ⟨hendLine, hendCol⟩ := token_end file hk lexeme c (c.advance lexeme.length)
      have hpos : 0 < lexeme.length := List.length_pos_iff.2 hlexeme.ne_nil
      rw [hendLine, hendCol, hlastLine, hlastCol, hsame, hcol, h.col]
      omega
  refine ⟨?_, by rw [htext]; exact hlexeme, ?_, ?_, ?_, ?_, ?_, ?_⟩
  · unfold token
    dsimp only
    split <;> rfl
  · rw [htext]
    show lexeme <+: source.drop c.pos
    rw [hafter, hrest]
    exact List.prefix_append _ _
  · intro cs k hcs hp
    rw [hlength]
    exact Token.length_le_of_scan? hs hcs (hafter ▸ hp)
  · rw [hstart.1]
    exact congrArg Nat.cast h.line_eq
  · rw [hstart.2]
    exact congrArg Nat.cast h.col_eq
  · rw [hlength]
    exact hend.1
  · rw [hlength]
    exact hend.2

/-- Behind the last character there is the end of input. -/
theorem closes_of_empty (h : Counts source c) (hafter : c.after = []) :
    Token.Closes file source c.pos (.ok (token file .eof [] c c)) := by
  have hpos : c.pos = source.length := by
    rw [h.pos, ← h.text, hafter, List.append_nil, List.length_reverse]
  refine ⟨hpos, rfl, rfl, hpos, rfl, ?_, ?_⟩
  · rw [← hpos, ← h.line_eq]
    rfl
  · rw [← hpos, ← h.col_eq]
    rfl

/-- A character that starts no token is an error. -/
theorem closes_of_stray (h : Counts source c) {x : Char} {r : List Char} (hafter : c.after = x :: r)
    (hx : Token.isSkipped x = false) (hscan : Token.scan? c.after = none) :
    Token.Closes file source c.pos (.error (c.unexpected file)) := by
  have hdrop : source.drop c.pos = x :: r := by rw [← h.after_eq, hafter]
  refine ⟨x, ?_, hx, fun cs k hcs => ?_, ?_, ?_⟩
  · rw [← List.head?_drop, hdrop]
    rfl
  · rw [← h.after_eq]
    exact Token.not_prefix_of_scan? hscan hcs
  · show Cause.unexpectedSymbol (String.singleton (c.charAt 0)) c.pos = _
    rw [charAt_after, hafter]
    rfl
  · rw [← h.line_eq, ← h.col_eq]
    rfl

/-- From a cursor on, the tokens cover the text up to where the reading ends. -/
theorem lex_covers (file : String) (h : Counts source c) :
    ∃ p, Token.Covers file source c.pos (c.lex file).1 p ∧
      Token.Closes file source p (c.lex file).2.1 := by
  induction hn : c.after.length using Nat.strong_induction_on generalizing c with
  | _ n ih =>
    obtain ⟨hle, hblank⟩ := skipBlanks_extract h
    rcases next_cases file c with ⟨hempty, hnext⟩ | ⟨lexeme, kind, hs, hnext⟩ | ⟨hne, hs, hnext⟩
    · rw [lex_of_eof hnext rfl]
      exact ⟨c.skipBlanks.pos, .nil hle hblank, closes_of_empty h.skipBlanks hempty⟩
    · have hk : (token file kind lexeme c.skipBlanks (c.skipBlanks.advance lexeme.length)).kind ≠ .eof :=
        Token.scan?_kind_ne_eof hs
      obtain ⟨p, hcovers, hcloses⟩ :=
        ih _ (hn ▸ length_next_lt hnext hk) (h.skipBlanks.advance lexeme.length) rfl
      have hexact := exact_token file h.skipBlanks hs
      obtain ⟨rest, hrest⟩ := Token.scan?_append hs
      have hpos : (c.skipBlanks.advance lexeme.length).pos = c.skipBlanks.pos + lexeme.length :=
        pos_advance (by rw [hrest, List.length_append]; omega)
      rw [lex_of_token hnext hk]
      refine ⟨p, .cons hle hblank hexact ?_, hcloses⟩
      rw [hpos] at hcovers
      have hlength : (token file kind lexeme c.skipBlanks
          (c.skipBlanks.advance lexeme.length)).text.length = lexeme.length := String.length_ofList
      rw [hlength]
      exact hcovers
    · obtain ⟨x, r, hafter⟩ := List.exists_cons_of_ne_nil hne
      have hx : Token.isSkipped x = false := isSkipped_of_skipBlanks hafter
      rw [lex_of_stray hnext]
      exact ⟨c.skipBlanks.pos, .nil hle hblank, closes_of_stray h.skipBlanks hafter hx hs⟩

end Cursor

namespace TokenStream

open Cursor Token

theorem ofChars_covers (file : String) (source : List Char) :
    ∃ p, Covers file source 0 (ofChars file source).tokens p ∧
      Closes file source p (ofChars file source).ending :=
  lex_covers file (counts_start source)

/-- **Reading loses nothing, and every place is exact.**  If a text can be read, its tokens are exact,
cover it up to its end, and are followed by the end of input, which is the only one; offsets grow from
token to token.  If it cannot be read, exact tokens cover it up to the character that the error is
about, and no token starts there. -/
theorem complete_exact (file : String) (source : List Char) :
    (∀ ts, (ofChars file source).complete = .ok ts →
      ∃ tokens last, ts = tokens ++ [last] ∧ Covers file source 0 tokens source.length ∧
        last.AtEnd file source ∧ (∀ t ∈ tokens, t.kind ≠ .eof) ∧
        (ts.map Token.offset).Pairwise (· < ·)) ∧
    (∀ e, (ofChars file source).complete = .error e →
      ∃ p c, Covers file source 0 (ofChars file source).tokens p ∧ Stray file source p c e) := by
  obtain ⟨p, hcovers, hcloses⟩ := ofChars_covers file source
  unfold complete
  constructor
  · intro ts hts
    cases hend : (ofChars file source).ending with
    | error e =>
      rw [hend] at hts
      cases hts
    | ok t =>
      rw [hend] at hts hcloses
      cases hts
      obtain ⟨rfl, hatEnd⟩ := hcloses
      obtain ⟨hbounds, hpairs⟩ := hcovers.offsets
      refine ⟨_, _, rfl, hcovers, hatEnd, fun t ht => kind_ne_eof_of_mem_ofChars ht, ?_⟩
      rw [List.map_append, List.pairwise_append]
      refine ⟨hpairs, List.pairwise_singleton _ _, fun a ha b hb => ?_⟩
      obtain ⟨t, ht, rfl⟩ := List.mem_map.1 ha
      rw [List.mem_singleton.1 hb, hatEnd.offset]
      exact (hbounds t ht).2
  · intro e he
    cases hend : (ofChars file source).ending with
    | ok t =>
      rw [hend] at he
      cases he
    | error e' =>
      rw [hend] at he hcloses
      cases he
      obtain ⟨c, hstray⟩ := hcloses
      exact ⟨p, c, hcovers, hstray⟩

/-- A text of two lines, and one that cannot be read. -/
theorem complete_exact_two_lines :
    (∃ ts, (ofChars "<input>" ['x', '\n', ' ', '<', '=', '1', '.']).complete = .ok ts ∧
      ts.map Token.offset = [0, 1, 3, 5, 7] ∧
      ∃ tokens last, ts = tokens ++ [last] ∧
        Covers "<input>" ['x', '\n', ' ', '<', '=', '1', '.'] 0 tokens 7 ∧
        last.AtEnd "<input>" ['x', '\n', ' ', '<', '=', '1', '.']) ∧
    ∃ e, (ofChars "<input>" ['x', '\n', ' ', '#']).complete = .error e ∧
      ∃ p c, Covers "<input>" ['x', '\n', ' ', '#'] 0
        (ofChars "<input>" ['x', '\n', ' ', '#']).tokens p ∧
        Stray "<input>" ['x', '\n', ' ', '#'] p c e := by
  constructor
  · refine ⟨_, rfl, rfl, ?_⟩
    obtain ⟨tokens, last, hts, hcovers, hlast, -⟩ :=
      (complete_exact "<input>" ['x', '\n', ' ', '<', '=', '1', '.']).1 _ rfl
    exact ⟨tokens, last, hts, hcovers, hlast⟩
  · exact ⟨_, rfl, (complete_exact "<input>" ['x', '\n', ' ', '#']).2 _ rfl⟩

end TokenStream

end Reckon
