import Reckon.Proofs.Parsing.Extent

/-!
# Spans are nested

The tokens of a text stand one behind the other, and they are read in that order.  So what is read from one
position up to another is a row of nodes between the offsets of the two current tokens (`Reading.lays`).

A whole program reaches from its first token to the end of input.  This one stands behind the last
character, and its span ends one column before it starts, or at the first column of its line.  No
statement reaches so far, so statements are inside the program (`Node.spans_nested`).
-/

namespace Reckon

variable {file : String} {source : List Char} {t u : Token} {lo hi : Nat} {n e : Node} {ns : List Node}

/-! ## Tokens one behind the other -/

/-- The token is in the text, before an offset. -/
def Token.Taken (file : String) (source : List Char) (t : Token) (hi : Nat) : Prop :=
  ∃ q, t.span = Text.spanAt file source t.offset q ∧ t.offset ≤ q ∧ q < source.length ∧ q < hi

theorem Token.Exact.taken (h : t.Exact file source) (hhi : t.offset + t.text.length ≤ hi) :
    t.Taken file source hi := by
  have hpos : 0 < t.text.length := by
    rw [← String.length_toList]
    exact List.length_pos_iff.2 h.lexeme.ne_nil
  have hwithin : t.text.length ≤ source.length - t.offset := by
    rw [← String.length_toList, ← List.length_drop]
    exact h.stands.length_le
  refine ⟨t.offset + t.text.length - 1, ?_, by omega, by omega, by omega⟩
  have hspan : t.span =
      ⟨t.span.file, t.span.startLine, t.span.startCol, t.span.endLine, t.span.endCol⟩ := rfl
  rw [hspan, h.file, h.startLine, h.startCol, h.endLine, h.endCol]
  rfl

theorem Token.Taken.offset_le (h : t.Taken file source hi) : t.offset ≤ hi := by
  obtain ⟨q, -, hle, -, hhi⟩ := h
  omega

/-- The token is the end of input.  It stands behind the last character, and its span ends at this
character, unless a line starts behind it. -/
structure Token.Closing (file : String) (source : List Char) (t : Token) : Prop where
  kind : t.kind = .eof
  offset : t.offset = source.length
  span : ∃ r, t.span = Text.spanAt file source source.length r ∧ r ≤ source.length ∧
    source.length ≤ r + 1

/-- The tokens ahead are those of the text from some offset on. -/
def Ahead.Fits (file : String) (source : List Char) (a : Ahead) : Prop :=
  ∃ p ts last, a = Ahead.before ts last ∧ Token.Covers file source p ts source.length ∧
    (∀ t ∈ ts, t.kind ≠ .eof) ∧ last.Closing file source

namespace Ahead.Fits

variable {a b : Ahead}

/-- A token that is taken stands before the next one. -/
theorem advance (h : a.Fits file source) (hk : a.current.kind ≠ .eof) (hb : a.advance = .ok b) :
    b.Fits file source ∧ a.current.Taken file source b.current.offset := by
  obtain ⟨p, ts, last, rfl, hcovers, hkinds, hlast⟩ := h
  cases hcovers with
  | nil => exact absurd hlast.kind hk
  | @cons p q t ts le blank exact rest =>
    obtain ⟨ht, hkinds⟩ := List.forall_mem_cons.1 hkinds
    rw [advance_before ht] at hb
    cases hb
    refine ⟨⟨_, ts, last, rfl, rest, hkinds, hlast⟩, exact.taken ?_⟩
    cases rest with
    | nil le => exact hlast.offset ▸ le
    | cons le => exact le

theorem passes {k : Token.Kind} (h : a.Fits file source) (hp : a.Passes k b)
    (hk : k ≠ .eof) :
    b.Fits file source ∧ a.current.Taken file source b.current.offset :=
  h.advance (hp.kind ▸ hk) hp.next

theorem reaches (h : a.Fits file source) (hr : a.Reaches b) : b.Fits file source := by
  induction hr with
  | refl => exact h
  | @tail b c _ hadvance ih =>
    by_cases hk : b.current.kind = .eof
    · rw [Ahead.advance, if_pos hk] at hadvance
      cases hadvance
      exact ih
    · exact (ih.advance hk hadvance).1

/-- The current token starts where its offset is. -/
theorem current_span (h : a.Fits file source) :
    ∃ q, a.current.span = Text.spanAt file source a.current.offset q ∧
      a.current.offset ≤ source.length := by
  obtain ⟨p, ts, last, rfl, hcovers, hkinds, hlast⟩ := h
  cases hcovers with
  | nil =>
    obtain ⟨r, hspan, -, -⟩ := hlast.span
    exact ⟨r, hlast.offset ▸ hspan, Nat.le_of_eq hlast.offset⟩
  | cons le blank exact rest =>
    obtain ⟨q, hspan, hle, hwithin, -⟩ := exact.taken le_rfl
    exact ⟨q, hspan, Nat.le_of_lt (Nat.lt_of_le_of_lt hle hwithin)⟩

theorem closing (h : a.Fits file source) (hk : a.current.kind = .eof) :
    a.current.Closing file source := by
  obtain ⟨p, ts, last, rfl, -, hkinds, hlast⟩ := h
  cases ts with
  | nil => exact hlast
  | cons t ts => exact absurd hk (hkinds t List.mem_cons_self)

end Ahead.Fits

/-! ## Rows from tokens -/

/-- A node that is a token. -/
theorem Row.token (h : t.Taken file source hi) (hcomponents : n.components = [])
    (hspan : n.span = some t.span) : Row file source t.offset [n] hi := by
  obtain ⟨q, hq, hle, hwithin, hhi⟩ := h
  rw [hq] at hspan
  refine .node hspan le_rfl hle hwithin hhi ?_
  rw [hcomponents]
  exact .nil (by omega)

/-- A node that has nothing around what it consists of. -/
theorem Row.around (h : Row file source lo [e] hi) (hcomponents : n.components = [e])
    (hspan : n.span = e.span) : Row file source lo [n] hi := by
  obtain ⟨hspread, horderly⟩ := h
  cases hspread with
  | cons span behind le within rest =>
    refine .node (hspan.trans span) behind le within rest.le ?_
    rw [hcomponents]
    exact ⟨.cons span le_rfl le within (.nil le_rfl), horderly⟩

/-- Nodes between two tokens, and the span from the one to the other. -/
def Bracketed (file : String) (source : List Char) (lo : Nat) (ns : List Node) (s : Option Span)
    (hi : Nat) : Prop :=
  ∃ q, s = some (Text.spanAt file source lo q) ∧ lo ≤ q ∧ q < source.length ∧ q < hi ∧
    Row file source lo ns (q + 1)

theorem Row.bracketed (ht : t.Taken file source lo) (h : Row file source lo ns u.offset)
    (hu : u.Taken file source hi) :
    Bracketed file source t.offset ns (some (t.span.upTo u.span)) hi := by
  have hlt := ht.offset_le
  have hle := h.spread.le
  obtain ⟨p, hp, -, -, -⟩ := ht
  obtain ⟨q, hq, hfirst, hwithin, hhi⟩ := hu
  refine ⟨q, ?_, by omega, hwithin, hhi, h.mono (by omega) (by omega)⟩
  rw [hp, hq]
  rfl

theorem Bracketed.row (h : Bracketed file source lo n.components n.span hi) :
    Row file source lo [n] hi := by
  obtain ⟨q, hspan, hle, hwithin, hhi, hrow⟩ := h
  exact .node hspan le_rfl hle hwithin hhi hrow

/-- Where such nodes are: those of a call between its name and its closing parenthesis. -/
def Portion.Lays (file : String) (source : List Char) (lo : Nat) (ns : List Node) (hi : Nat) :
    Portion → Prop
  | nodes _ | body => Row file source lo ns hi
  | head span => Bracketed file source lo ns span hi

/-- **What is read is a row**, from the offset of the token that is first to that of the token behind. -/
theorem Reading.lays {p : Portion} {a b : Ahead} (h : Reading p a ns b) (ha : a.Fits file source) :
    p.Lays file source a.current.offset ns b.current.offset := by
  induction h with
  | nil => exact .nil le_rfl
  | append first rest ih ih' => exact (ih ha).append le_rfl (ih' (ha.reaches first.reaches))
  | sign sign fixed => exact .nil (ha.passes sign fixed.1).2.offset_le
  | number number => exact .token (ha.passes number (by decide)).2 rfl rfl
  | quantity number touches next =>
    obtain ⟨hb, ht⟩ := ha.passes number (by decide)
    exact ((Row.nil le_rfl).bracketed ht (hb.passes next (by decide)).2).row
  | truth word => exact .token (ha.passes word (by decide)).2 rfl rfl
  | name name => exact .token (ha.passes name (by decide)).2 rfl rfl
  | matrix opens cells closes _ _ _ ih =>
    obtain ⟨hb, ht⟩ := ha.passes opens (by decide)
    exact ((ih hb).bracketed ht ((hb.reaches cells.reaches).passes closes (by decide)).2).row
  | head name opens inner closes ih =>
    obtain ⟨hb, ht⟩ := ha.passes name (by decide)
    obtain ⟨hc, hu⟩ := hb.passes opens (by decide)
    have hv := ((hc.reaches inner.reaches).passes closes (by decide)).2
    exact ((ih hc).mono hu.offset_le le_rfl).bracketed ht hv
  | @call a b args span _ ih =>
    have hhead : Bracketed file source a.current.offset args span b.current.offset := ih ha
    exact Bracketed.row (n := .call a.current.text args span) hhead
  | define head _ sign fixed _ ih ih' =>
    -- The arguments have become parameters where they stand, and the body is behind them.
    obtain ⟨q, hspan, hle, hwithin, hhi, hargs⟩ := ih ha
    obtain ⟨hc, ht⟩ := (ha.reaches head.reaches).passes sign fixed.1
    have hbehind := ht.offset_le
    exact (hargs.append (by omega) (ih' hc)).closed_by le_rfl hspan rfl rfl
  | @unary a b c op e kind next operand ih =>
    obtain ⟨hb, ht⟩ := ha.advance (UnaryOp.fixed_of_ofKind? kind).1 next
    have hoperand : Row file source a.current.offset ([] ++ [e]) c.current.offset :=
      (ih hb).mono ht.offset_le le_rfl
    obtain ⟨q, hspan, -⟩ := ht
    exact hoperand.closed_by le_rfl (congrArg some hspan) rfl rfl
  | @binary a b l r op operands ih =>
    have hrow : Row file source a.current.offset (l :: [] ++ [r]) b.current.offset := ih ha
    exact hrow.joined rfl rfl
  | @ternary a b c y n operands ih =>
    have hrow : Row file source a.current.offset (c :: [y] ++ [n]) b.current.offset := ih ha
    exact hrow.joined rfl rfl
  | braces opens lines closes ih =>
    obtain ⟨hb, ht⟩ := ha.passes opens (by decide)
    exact ((ih hb).bracketed ht ((hb.reaches lines.reaches).passes closes (by decide)).2).row
  | value _ ih => exact (ih ha).around rfl rfl
  | line _ ih => exact ih ha
  | @assign a b target e operands ih =>
    have hrow : Row file source a.current.offset (target.asVar :: [] ++ [e]) b.current.offset := ih ha
    exact hrow.joined rfl rfl
  | apply op _ ih => exact (ih ha).repeated op

/-! ## The end of input -/

theorem Cursor.closing_of_empty {c : Cursor} (h : Counts source c) (hafter : c.after = []) :
    (token file .eof [] c c).Closing file source := by
  have hpos : c.pos = source.length := by
    rw [h.pos, ← h.text, hafter, List.append_nil, List.length_reverse]
  obtain ⟨r, hle, hge, hline, hcol⟩ := Text.exists_last source
  refine ⟨rfl, hpos, r, ?_, hle, hge⟩
  show Span.mk file c.line c.col c.line (max 1 (c.col - 1) : Nat) = _
  rw [h.line_eq, h.col_eq, hpos, ← hcol, Text.spanAt, hline]

/-- The tokens of a text end with such a token, if they can all be read. -/
theorem Cursor.closing_of_lex {c : Cursor} (h : Counts source c) (ht : (c.lex file).2.1 = .ok t) :
    t.Closing file source := by
  induction hn : c.after.length using Nat.strong_induction_on generalizing c with
  | _ n ih =>
    rcases next_cases file c with ⟨hempty, hnext⟩ | ⟨lexeme, kind, hs, hnext⟩ | ⟨-, -, hnext⟩
    · rw [lex_of_eof hnext rfl] at ht
      cases ht
      exact closing_of_empty h.skipBlanks hempty
    · have hk : (token file kind lexeme c.skipBlanks (c.skipBlanks.advance lexeme.length)).kind ≠ .eof :=
        Token.scan?_kind_ne_eof hs
      rw [lex_of_token hnext hk] at ht
      exact ih _ (hn ▸ length_next_lt hnext hk) (h.skipBlanks.advance lexeme.length) ht rfl
    · rw [lex_of_stray hnext] at ht
      cases ht

/-! ## Whole programs -/

namespace Node

variable {program : Node}

/-- A program reaches from its first token to the end of its text, and its statements are a row. -/
theorem row_of_parse {file source : String} (h : parse file source = .ok program) :
    ∃ p r, program.span = some (Text.spanAt file source.toList p r) ∧ p ≤ source.toList.length ∧
      r ≤ source.toList.length ∧ source.toList.length ≤ r + 1 ∧
      Row file source.toList p program.components source.toList.length := by
  obtain ⟨a, b, xs, hstart, hk, rfl, hread⟩ := reads_of_parse h
  obtain ⟨ts, last, -, -, hstream, -, -⟩ := lines_of_parse h
  obtain ⟨p, hcovers, hcloses⟩ := TokenStream.ofChars_covers file source.toList
  have hkinds : ∀ t ∈ (TokenStream.ofChars file source.toList).tokens, t.kind ≠ .eof :=
    fun t ht => TokenStream.kind_ne_eof_of_mem_ofChars ht
  have hlast : last.Closing file source.toList := by
    refine Cursor.closing_of_lex (Cursor.counts_start source.toList) ?_
    show (TokenStream.ofChars file source.toList).ending = _
    rw [hstream]
  rw [hstream] at hstart hcovers hcloses hkinds
  rw [Ahead.start_eq_before] at hstart
  cases hstart
  obtain ⟨rfl, -⟩ := hcloses
  have hfits : (Ahead.before ts last).Fits file source.toList :=
    ⟨0, ts, last, rfl, hcovers, hkinds, hlast⟩
  obtain ⟨q, hfirst, hle⟩ := hfits.current_span
  obtain ⟨-, hoffset, r, hclosing, hr, hr'⟩ := (hfits.reaches hread.reaches).closing hk
  have hrow : Row file source.toList (Ahead.before ts last).current.offset xs b.current.offset :=
    hread.lays hfits
  refine ⟨_, r, ?_, hle, hr, hr', hoffset ▸ hrow⟩
  rw [Node.span, hfirst, hclosing]
  rfl

/-- **Spans are nested.**  Every node of a program that is read from a text has a span between places of the
text.  The span starts no later than it ends, unless it is that of a program without statements.  What the
node consists of is inside of it, one thing behind the other; an assignment that applies an operator has
its target once more in its value. -/
theorem spans_nested {file source : String} (h : parse file source = .ok program)
    (he : program.Contains e) :
    ∃ s, e.span = some s ∧
      (∃ p q, s = Text.spanAt file source.toList p q ∧ p ≤ source.length ∧ q ≤ source.length ∧
        (e ≠ program → p ≤ q ∧ q < source.length)) ∧
      (s.opens ≤ s.closes ∨ e = program ∧ program.components = []) ∧
      (∀ c ∈ e.components, ∃ t, c.span = some t ∧ s.opens ≤ t.opens ∧ t.closes ≤ s.closes) ∧
      (e.components.Pairwise Apart ∨ ∃ target op v,
        e = .assign target (.binary target.asVar op v (some s)) (some s) ∧
          [target.asVar, v].Pairwise Apart) := by
  obtain ⟨p, r, hspan, hp, hr, hr', hspread, horderly⟩ := row_of_parse h
  rw [String.length_toList] at hp hr hr'
  rcases he.cases_head with rfl | ⟨c, hc, hce⟩
  · -- The program itself, which may end before it starts if there is nothing in it.
    have hrow := hspread.mono le_rfl hr'
    refine ⟨_, hspan, ⟨p, r, rfl, hp, hr, fun hne => absurd rfl hne⟩, ?_, fun c => hrow.inside,
      .inl hspread.pairwise⟩
    cases hcs : program.components with
    | nil => exact .inr ⟨rfl, rfl⟩
    | cons c cs =>
      obtain ⟨p', q', -, hp', hle, -, hq'⟩ := hrow.of_mem (hcs ▸ List.mem_cons_self)
      exact .inl (Text.placeAt_le (by omega))
  · obtain ⟨p', q', hspan', hle, hwithin, hinside, happart⟩ := (horderly c hc e hce).nested
    rw [String.length_toList] at hwithin
    exact ⟨_, hspan', ⟨p', q', rfl, by omega, by omega, fun _ => ⟨hle, hwithin⟩⟩,
      .inl (Text.placeAt_le hle), hinside, happart⟩

/-- An assignment that applies an operator, and a matrix behind it. -/
theorem spans_nested_two_lines :
    ∃ program, parse "<input>" "x += f(1, 2)\n[x -2; (3) 4cm]" = .ok program ∧
      program.components.length = 2 ∧
      ∀ c ∈ program.components, program.Contains c ∧ ∃ s t, program.span = some s ∧
        c.span = some t ∧ s.opens ≤ t.opens ∧ t.closes ≤ s.closes := by
  have hlength : ((parse "<input>" "x += f(1, 2)\n[x -2; (3) 4cm]").toOption.map
      fun program => program.components.length) = some 2 := by
    decide +kernel
  cases hparse : parse "<input>" "x += f(1, 2)\n[x -2; (3) 4cm]" with
  | error e =>
    rw [hparse] at hlength
    cases hlength
  | ok program =>
    rw [hparse] at hlength
    refine ⟨program, rfl, Option.some.inj hlength, fun c hc => ⟨.single hc, ?_⟩⟩
    obtain ⟨s, hs, -, -, hinside, -⟩ := spans_nested hparse .refl
    obtain ⟨t, ht, hopens, hcloses⟩ := hinside c hc
    exact ⟨s, t, hs, ht, hopens, hcloses⟩

end Node

end Reckon
