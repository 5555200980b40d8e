import Reckon.Proofs.Parsing.Element

/-!
# Passages

A passage is a text that a rule of the grammar reads up to its end (`Passage`): an expression, or an
assignment.  It keeps its own blanks, inside and behind it.  Put into a longer text, before a comma, before a
closing parenthesis or at the end, it is read as the same node up to spans, whatever blanks stand before it
(`Passage.read`).  This is asked of the rule (`Parser.Portable`), and holds of both.

Passages that are assignments, with commas between them, are a program: the chain of them
(`Passage.parse_chain`).

A text that is one statement on its own, with no newline before or behind it, is a passage
(`Solitary.exists_expression`, `Solitary.exists_assigning`).  What has to be seen here is that the parser takes
no line for an empty one: a missing operand takes no tokens (`Parser.eq_of_expr_empty`).
-/

namespace Reckon

open Ahead (before)

/-! ## A missing operand takes no tokens -/

namespace Parser

variable {n : Nat} {s : Spacing} {a b : Ahead} {x : Node}

/-- Where no expression is found, the parser stays where it is. -/
theorem eq_of_expr_empty (h : Parser.expr n s a = .ok (x, b)) (hx : x.isEmpty = true) : b = a := by
  rcases reads_of_expr h with ⟨-, hstays⟩ | hread
  · exact hstays
  · rw [hread.isEmpty_eq_false x List.mem_cons_self] at hx
    cases hx

/-! ## Lines -/

/-- A line that is empty takes no tokens. -/
theorem eq_of_statement_nil (h : statement (Parser.expr n .ignored) a = .ok ([], b)) : b = a := by
  rcases statement_cases h with hassigns | ⟨x, hx, hempty⟩
  · obtain ⟨y, ys, hxs, -⟩ := assignments_eq_cons hassigns
    cases hxs
  · by_cases hsome : x.isEmpty = true
    · exact eq_of_expr_empty hx hsome
    · rw [if_neg hsome] at hempty
      cases hempty

/-- A line that is one assignment. -/
theorem assignment_of_statement (h : statement (Parser.expr n .ignored) a = .ok ([x], b))
    (hx : x.isAssignment = true) : assignment (Parser.expr n .ignored) a = .ok (x, b) := by
  rcases statement_cases h with hassigns | ⟨y, hy, hsome⟩
  · have hrounds : assignments (Parser.expr n .ignored) (a.rest.length + 1 + 1) a = .ok ([x], b) :=
      hassigns
    obtain ⟨first, c, hfirst, hrest⟩ := bind_eq_ok hrounds
    by_cases hcomma : c.current.kind = .comma
    · -- Behind a comma stands another assignment.
      obtain ⟨comma, d, haccept, hrest⟩ := bind_eq_ok hrest
      unfold accept at haccept
      rw [bind_run_ok (at?_run _ c), if_pos (beq_iff_eq.2 hcomma)] at haccept
      obtain ⟨_, _, -, haccept⟩ := bind_eq_ok haccept
      cases haccept
      obtain ⟨rest, _, hmore, hrest⟩ := bind_eq_ok hrest
      obtain ⟨y, ys, rfl, -⟩ := assignments_eq_cons hmore
      cases hrest
    · rw [bind_run_ok (accept_run_no hcomma)] at hrest
      cases hrest
      exact hfirst
  · -- An expression is no assignment.
    rcases reads_of_expr hy with ⟨hempty, -⟩ | hread
    · rw [if_pos hempty] at hsome
      cases hsome
    · rw [if_neg (by rw [hread.isEmpty_eq_false y List.mem_cons_self]; simp)] at hsome
      obtain rfl : x = y := List.singleton_inj.1 hsome
      rw [(hread.admits x List.mem_cons_self).2] at hx
      cases hx

variable {ts : List Token} {last : Token}

/-- Lines with nothing in them are newlines. -/
theorem newlines_of_lines_nil (hkinds : ∀ t ∈ ts, t.kind ≠ .eof) (hlast : last.kind = .eof)
    (h : Lines (statement (Parser.expr n .ignored)) (before ts last) []) :
    ∀ t ∈ ts, t.kind = .newline := by
  have hskip : ∀ {b}, bounded skipNewlines (before ts last) = .ok ((), b) →
      b = before (ts.dropWhile Token.isNewline) last := by
    intro b hb
    rw [bounded_skipNewlines_before hlast] at hb
    cases hb
    rfl
  generalize hxs : [] = xs at h
  cases h with
  | last hb hline hstop =>
    subst hxs
    rw [eq_of_statement_nil hline, hskip hb] at hstop
    have hnone : ts.dropWhile Token.isNewline = [] := by
      cases hdrop : ts.dropWhile Token.isNewline with
      | nil => rfl
      | cons t us =>
        rw [hdrop] at hstop
        have ht : t ∈ ts := (List.dropWhile_suffix _).mem (hdrop ▸ List.mem_cons_self)
        exact absurd hstop (hkinds t ht)
    intro t ht
    exact Token.isNewline_iff.1 (List.dropWhile_eq_nil_iff.1 hnone t ht)
  | more hb hline hnext _ =>
    obtain ⟨rfl, -⟩ := List.append_eq_nil_iff.1 hxs.symm
    rw [eq_of_statement_nil hline, hskip hb] at hnext
    have hnot := List.head?_dropWhile_not Token.isNewline ts
    cases hdrop : ts.dropWhile Token.isNewline with
    | nil =>
      rw [hdrop] at hnext
      have hk : last.kind = .newline := hnext
      rw [hlast] at hk
      cases hk
    | cons t us =>
      rw [hdrop] at hnext hnot
      have htrue : t.isNewline = true := Token.isNewline_iff.2 hnext
      have hfalse : t.isNewline = false := hnot
      rw [htrue] at hfalse
      cases hfalse

/-- Lines that are one statement, with no newline before the first token and behind the last one, are one
line. -/
theorem statement_of_ends (hkinds : ∀ t ∈ ts, t.kind ≠ .eof) (hlast : last.kind = .eof)
    (hfirst : ∀ t ∈ ts.head?, t.kind ≠ .newline) (hend : ∀ t ∈ ts.getLast?, t.kind ≠ .newline)
    (h : Lines (statement (Parser.expr n .ignored)) (before ts last) [x]) :
    ∃ b, statement (Parser.expr n .ignored) (before ts last) = .ok ([x], b) ∧
      b.current.kind = .eof := by
  have hstart : (before ts last).current.kind ≠ .newline := by
    cases ts with
    | nil =>
      show last.kind ≠ .newline
      rw [hlast]
      decide
    | cons t ts => exact hfirst t rfl
  have hskip : ∀ {b}, bounded skipNewlines (before ts last) = .ok ((), b) → b = before ts last := by
    intro b hb
    rw [bounded_run, Ahead.size, skipNewlines_run_no hstart] at hb
    cases hb
    rfl
  generalize hxs : [x] = xs at h
  cases h with
  | last hb hline hstop =>
    obtain rfl := hskip hb
    subst hxs
    exact ⟨_, hline, hstop⟩
  | @more _ _ c ys zs hb hline hnext hmore =>
    obtain rfl := hskip hb
    cases ys with
    | nil =>
      rw [eq_of_statement_nil hline] at hnext
      exact absurd hnext hstart
    | cons y ys =>
      -- Nothing but newlines is left behind the statement, so the last token is one.
      obtain ⟨-, hnil⟩ := List.cons.inj hxs
      obtain ⟨rfl, rfl⟩ := List.append_eq_nil_iff.1 hnil.symm
      obtain ⟨us, hus⟩ := (((Moves.grammar n).1 _).statement _ _ _ hline).exists_takes
      obtain ⟨vs, rfl, rfl⟩ := hus.before hkinds hlast
      have hvs := newlines_of_lines_nil (fun t ht => hkinds t (List.mem_append_right us ht)) hlast hmore
      cases hv : vs.getLast? with
      | none =>
        rw [List.getLast?_eq_none_iff.1 hv] at hnext
        have hk : last.kind = .newline := hnext
        rw [hlast] at hk
        cases hk
      | some v =>
        refine absurd (hvs v (List.mem_of_getLast? hv)) (hend v ?_)
        rw [List.getLast?_append, hv]
        rfl

/-- What an assignment starts with. -/
theorem starts_of_assignment {e : Parser Node} {r : Node × Ahead} (hlast : last.kind = .eof)
    (h : assignment e (before ts last) = .ok r) :
    ∃ t u vs, ts = t :: u :: vs ∧ t.kind = .identifier ∧ (assignment? u.kind).isSome = true := by
  obtain ⟨target, c, hname, hrest⟩ := bind_eq_ok h
  obtain ⟨_, _, hexpect, hpure⟩ := bind_eq_ok hname
  obtain ⟨hk, hadvance⟩ := expect_eq_ok hexpect
  cases hpure
  cases ts with
  | nil =>
    have hk : last.kind = .identifier := hk
    rw [hlast] at hk
    cases hk
  | cons t ts =>
    have ht : t.kind = .identifier := hk
    rw [advance_run_ok (Ahead.advance_before (by rw [ht]; decide))] at hadvance
    cases hadvance
    have hsign : (assignment? (before ts last).current.kind).isSome = true := by
      rw [bind_run_ok (current_run _)] at hrest
      cases hs : assignment? (before ts last).current.kind with
      | some op => rfl
      | none =>
        rw [hs] at hrest
        obtain ⟨_, _, hassign, -⟩ := bind_eq_ok hrest
        rw [(expect_eq_ok hassign).1] at hs
        cases hs
    cases ts with
    | nil =>
      rw [show (before [] last).current.kind = .eof from hlast] at hsign
      cases hsign
    | cons u vs => exact ⟨t, u, vs, rfl, ht, hsign⟩

/-! ## Rules that read the same elsewhere -/

/-- A rule of the grammar, by how deep it nests, that carries what it reads into longer texts. -/
structure Portable (p : Nat → Parser Node) : Prop where
  /-- It reads the same where what follows is no operator. -/
  carries : ∀ (X : Excerpt) {n n' : Nat}, n ≤ n' → X.Ends .ignored →
    X.Carries X.Begun True Node.bare (p n) (p n')
  /-- It starts with a token. -/
  begins : ∀ {n a x b}, p n a = .ok (x, b) → x.isEmpty = false → a.current.kind ≠ .eof
  /-- Of a sign in front only its kind and its place matter. -/
  sign : ∀ {n : Nat} {t t' : Token} {ts : List Token} {last : Token} {op : UnaryOp} {r : Node × Ahead},
    UnaryOp.ofKind? t.kind = some op → t'.kind = t.kind → t'.span = t.span →
    p n (before (t :: ts) last) = .ok r → p n (before (t' :: ts) last) = .ok r

/-- An expression outside of matrix rows. -/
def expression (n : Nat) : Parser Node :=
  Parser.expr n .ignored

/-- An assignment of an expression. -/
def assigning (n : Nat) : Parser Node :=
  assignment (Parser.expr n .ignored)

theorem portable_expression : Portable expression where
  carries X _ _ hn hends := ((X.carries_grammar hn).1 .ignored True fun _ => hends).carries
  begins {n a x b} h hx hk := by
    have hstart := starting_of_expr h hx
    rw [hk] at hstart
    exact absurd hstart (by decide)
  sign hop hkind hspan h := expr_sign hop hkind hspan h

theorem portable_assigning : Portable assigning where
  carries X _ _ hn hends :=
    Excerpt.Carries.assignment ((X.carries_grammar hn).1 .ignored True fun _ => hends)
  begins {n a x b} h _ hk := by
    obtain ⟨_, _, hname, -⟩ := bind_eq_ok h
    obtain ⟨_, _, hexpect, -⟩ := bind_eq_ok hname
    rw [(expect_eq_ok hexpect).1] at hk
    cases hk
  sign {n t t' ts last op r} hop _ _ h := by
    obtain ⟨_, _, hname, -⟩ := bind_eq_ok h
    obtain ⟨_, _, hexpect, -⟩ := bind_eq_ok hname
    have hk : t.kind = .identifier := (expect_eq_ok hexpect).1
    rw [hk] at hop
    cases hop

end Parser

/-! ## Segments before other texts -/

namespace Segment

variable {p : Segment} {ps qs : List Segment} {rest rest' : List Char}

/-- A text starts with a space or a tab, or not, whichever of two texts follows it. -/
theorem Legible.isGap_text (h : Legible rest ps)
    (hgap : Cursor.isGap (rest'.headD '\x00') = Cursor.isGap (rest.headD '\x00')) :
    Cursor.isGap ((text ps rest').headD '\x00') = Cursor.isGap ((text ps rest).headD '\x00') := by
  cases h with
  | nil => exact hgap
  | @cons p ps _ hscan _ =>
    obtain ⟨c, cs, hlexeme⟩ := List.exists_cons_of_ne_nil (Token.scan?_ne_nil hscan)
    rw [text, text, hlexeme]
    cases p.blanks <;> rfl

/-- Segments are respaced as themselves before a text that starts alike. -/
theorem Legible.respaced (h : Legible rest ps)
    (hgap : Cursor.isGap (rest'.headD '\x00') = Cursor.isGap (rest.headD '\x00')) :
    Respaced rest rest' ps ps := by
  induction h with
  | nil => exact .nil
  | cons _ _ htail ih =>
    refine .cons rfl rfl Iff.rfl (fun _ => ?_) ih
    unfold joins
    rw [htail.isGap_text hgap]

/-- What stands behind a passage that has these blanks at its end: nothing else, or a comma or a closing
parenthesis, and the blanks are still there. -/
structure Stops (tail : List Char) (qs : List Segment) (rest : List Char) : Prop where
  kind : ∀ q ∈ qs.head?, q.kind = .comma ∨ q.kind = .rparen
  gap : Cursor.isGap ((text qs rest).headD '\x00') = Cursor.isGap (tail.headD '\x00')

theorem stops_nil (tail : List Char) : Stops tail [] tail :=
  ⟨fun _ hq => (by cases hq), rfl⟩

theorem stops_comma (tail : List Char) (qs : List Segment) (rest : List Char) :
    Stops tail (⟨tail, .comma, [',']⟩ :: qs) rest :=
  ⟨by rintro q ⟨⟩; exact .inl rfl, by cases tail <;> rfl⟩

theorem stops_rparen (tail : List Char) (qs : List Segment) (rest : List Char) :
    Stops tail (⟨tail, .rparen, [')']⟩ :: qs) rest :=
  ⟨by rintro q ⟨⟩; exact .inr rfl, by cases tail <;> rfl⟩

end Segment

/-! ## Passages -/

/-- A text that a rule of the grammar reads up to its end: its segments and the blanks behind them, the tokens
that they are read as, and the node. -/
structure Passage (p : Nat → Parser Node) where
  segments : List Segment
  tail : List Char
  tokens : List Token
  /-- The end of input behind the tokens. -/
  last : Token
  node : Node
  legible : Segment.Legible tail segments
  blank : ∀ c ∈ tail, Token.isSkipped c = true
  reads : Segment.ReadAs tail segments tokens
  kinds : ∀ t ∈ tokens, t.kind ≠ .eof
  last_kind : last.kind = .eof
  run : ∃ b, p (2 * (before tokens last).size + 1) (before tokens last) = .ok (node, b) ∧
    b.current.kind = .eof
  not_empty : node.isEmpty = false

namespace Passage

open Reckon.Parser

variable {p : Nat → Parser Node} {x : Passage p} {qs : List Segment} {rest : List Char} {us : List Token}
  {last : Token} {n : Nat}

/-- The first segment and the first token. -/
theorem exists_first (hp : Portable p) (x : Passage p) :
    ∃ q qs t ts, x.segments = q :: qs ∧ x.tokens = t :: ts := by
  obtain ⟨b, hrun, -⟩ := x.run
  have hstart := hp.begins hrun x.not_empty
  have hreads := x.reads
  cases htokens : x.tokens with
  | nil =>
    rw [htokens] at hstart
    exact absurd x.last_kind hstart
  | cons t ts =>
    rw [htokens] at hreads
    generalize x.segments = segments at hreads
    cases hreads
    exact ⟨_, _, t, ts, rfl, rfl⟩

/-- Where the tokens of a passage come again before such segments, its node does so up to spans. -/
theorem carried (hp : Portable p) (x : Passage p) {vs : List Token}
    (hstops : (before vs last).current.kind ∈ [.comma, .rparen, .eof]) (hlast : last.kind = .eof)
    (hus : Token.Retold (vs.headD last) x.tokens us)
    (hn : 2 * (before x.tokens x.last).size + 1 ≤ n) :
    ∃ node, p n (before (us ++ vs) last) = .ok (node, before vs last) ∧
      node.bare = x.node.bare := by
  have hall : ∀ k ∈ [Token.Kind.comma, .rparen, .eof], k ∉ Token.continuing ∧
      BinaryOp.ofKind? k = none ∧ k ≠ .lparen := by decide
  obtain ⟨hcontinuing, hoperator, hparen⟩ := hall _ hstops
  let X : Excerpt := ⟨vs, x.last, last, x.last_kind, hlast, hcontinuing⟩
  have hends : X.Ends .ignored := by
    intro bound
    unfold operator?
    rw [show BinaryOp.ofKind? X.next.kind = none from hoperator]
  have hnext : X.next = vs.headD last := by
    cases vs <;> rfl
  have htells : X.Tells x.tokens us :=
    .of_retold (hnext ▸ hus) x.kinds (fun h => absurd h hparen) fun _ => hends
  obtain ⟨b, hrun, hend⟩ := x.run
  have hbegun : X.Begun (before x.tokens x.last) := fun hk => absurd hk (hp.begins hrun x.not_empty)
  obtain ⟨node, b', hnode, hbare, hecho⟩ :=
    (hp.carries X hn hends).carry ⟨_, _, htells, rfl, rfl⟩ hbegun hrun fun _ => trivial
  rw [hecho.eq_behind hend] at hnode
  exact ⟨node, hnode, hbare⟩

/-- **A passage in a longer text.**  Behind other blanks, and before a comma, a closing parenthesis or the end,
it is read as the same node up to spans, and what is behind it is left. -/
theorem read (hp : Portable p) (x : Passage p) {blanks : List Char}
    (hstops : Segment.Stops x.tail qs rest)
    (hread : Segment.ReadAs rest (Segment.spread blanks x.segments ++ qs) us) (hlast : last.kind = .eof)
    (hn : 2 * (before us last).size + 1 ≤ n) :
    ∃ node vs, p n (before us last) = .ok (node, before vs last) ∧ node.bare = x.node.bare ∧
      Segment.ReadAs rest qs vs := by
  have hsize : 2 * (before x.tokens x.last).size + 1 ≤ n := by
    have hlength := hread.length_eq
    rw [List.length_append, Segment.length_spread, ← x.reads.length_eq] at hlength
    rw [Ahead.size_before] at hn ⊢
    omega
  obtain ⟨q, ps, t, ts, hsegments, htokens⟩ := x.exists_first hp
  rw [hsegments, Segment.spread, List.cons_append] at hread
  cases hread with
  | @cons _ _ u us hk ht hbefore hafter htouches htail =>
    -- First the passage as if its own blanks stood before it.
    obtain ⟨u₀, hu₀⟩ : ∃ u₀ : Token, u₀ = { u with
        blankBefore := Cursor.isGap (q.blanks.getLastD '\x00') } := ⟨_, rfl⟩
    have hread₀ : Segment.ReadAs rest (x.segments ++ qs) (u₀ :: us) := by
      rw [hsegments, hu₀, List.cons_append]
      exact .cons hk ht rfl hafter htouches htail
    have hname : last.kind ≠ .identifier := by
      rw [hlast]
      decide
    have hunit : ∀ q ∈ qs.head?, q.kind = .identifier → q.blanks ≠ [] := by
      intro q hq hid
      rcases hstops.kind q hq with hk | hk <;> rw [hid] at hk <;> cases hk
    obtain ⟨us₁, vs, hus, hvs, hretold⟩ :=
      x.reads.retold (x.legible.respaced hstops.gap) hread₀ hunit hname
    obtain ⟨us₂, rfl⟩ : ∃ us₂, us₁ = u₀ :: us₂ := by
      rw [htokens] at hretold
      cases hretold with
      | cons _ _ _ => exact ⟨_, by rw [(List.cons.inj hus).1]⟩
    obtain rfl : us = us₂ ++ vs := (List.cons.inj hus).2
    have hbehind : (before vs last).current.kind ∈ [Token.Kind.comma, .rparen, .eof] := by
      have hkind := hstops.kind
      cases hvs with
      | nil =>
        rw [show (before [] last).current.kind = .eof from hlast]
        decide
      | cons hv =>
        rw [Ahead.current_before, hv]
        rcases hkind _ rfl with hk | hk <;> rw [hk] <;> decide
    by_cases hsign : u₀.kind = .plus ∨ u₀.kind = .minus
    · -- A sign in front is read as such, whether a blank stands before it or not.
      obtain ⟨op, hop⟩ : ∃ op, UnaryOp.ofKind? u₀.kind = some op := by
        rcases hsign with hk | hk <;> rw [hk] <;> exact ⟨_, rfl⟩
      obtain ⟨node, hnode, hbare⟩ := x.carried hp hbehind hlast hretold hsize
      exact ⟨node, vs, hp.sign hop (by rw [hu₀]) (by rw [hu₀]) hnode, hbare, hvs⟩
    · have hretold' : Token.Retold (vs.headD last) x.tokens (u :: us₂) :=
        hretold.of_head (by rw [hu₀]) (by rw [hu₀]) (by rw [hu₀]) hsign
      obtain ⟨node, hnode, hbare⟩ := x.carried hp hbehind hlast hretold' hsize
      exact ⟨node, vs, hnode, hbare, hvs⟩

/-- So it is behind its own blanks. -/
theorem read_here (hp : Portable p) (x : Passage p) (hstops : Segment.Stops x.tail qs rest)
    (hread : Segment.ReadAs rest (x.segments ++ qs) us) (hlast : last.kind = .eof)
    (hn : 2 * (before us last).size + 1 ≤ n) :
    ∃ node vs, p n (before us last) = .ok (node, before vs last) ∧ node.bare = x.node.bare ∧
      Segment.ReadAs rest qs vs := by
  obtain ⟨q, ps, t, ts, hsegments, -⟩ := x.exists_first hp
  have hown : x.segments = Segment.spread q.blanks x.segments := by
    rw [hsegments]
    rfl
  exact x.read hp hstops (hown ▸ hread) hlast hn

/-- The characters of a passage. -/
def text (x : Passage p) : List Char :=
  Segment.text x.segments x.tail

theorem text_eq_append (x : Passage p) : x.text = Segment.text x.segments [] ++ x.tail :=
  Segment.text_eq_append x.segments x.tail

/-! ## Chains -/

/-- The segments of passages with commas between them. -/
def chain (y : Passage p) : List (Passage p) → List Segment
  | [] => y.segments
  | z :: zs => y.segments ++ ⟨y.tail, .comma, [',']⟩ :: chain z zs

/-- The blanks behind the last one of them. -/
def chainTail (y : Passage p) : List (Passage p) → List Char
  | [] => y.tail
  | z :: zs => chainTail z zs

theorem blank_chainTail (y : Passage p) (ys : List (Passage p)) :
    ∀ c ∈ chainTail y ys, Token.isSkipped c = true := by
  induction ys generalizing y with
  | nil => exact y.blank
  | cons z zs ih => exact ih z

theorem text_chain (y : Passage p) (ys : List (Passage p)) :
    Segment.text (chain y ys) (chainTail y ys) = [','].intercalate ((y :: ys).map text) := by
  induction ys generalizing y with
  | nil => simp [chain, chainTail, text]
  | cons z zs ih =>
    rw [chain, chainTail, Segment.text_append, Segment.text, ih, Segment.text_eq_append]
    simp only [List.map_cons, List.intercalate_cons_cons]
    rw [text_eq_append y, List.append_assoc, List.append_assoc]

theorem legible_chain (y : Passage p) (ys : List (Passage p)) :
    Segment.Legible (chainTail y ys) (chain y ys) := by
  induction ys generalizing y with
  | nil => exact y.legible
  | cons z zs ih =>
    refine .append (y.legible.of_breaks (Text.breaks_of_blank y.blank) ?_) (.cons y.blank rfl (ih z))
    refine Text.breaks_append y.blank ?_
    rintro c ⟨⟩
    decide

/-- Assignments with commas between them are read one after the other. -/
theorem read_chain (y : Passage assigning) (ys : List (Passage assigning))
    (hread : Segment.ReadAs (chainTail y ys) (chain y ys) us) (hlast : last.kind = .eof)
    (hn : 2 * (before us last).size + 1 ≤ n) {k : Nat} (hk : us.length < k) :
    ∃ nodes, assignments (Parser.expr n .ignored) k (before us last) = .ok (nodes, before [] last) ∧
      nodes.map Node.bare = (y :: ys).map fun z => z.node.bare := by
  obtain ⟨k, rfl⟩ : ∃ j, k = j + 1 := Nat.exists_eq_add_one.2 (Nat.zero_lt_of_lt hk)
  induction ys generalizing y us k with
  | nil =>
    rw [chain, ← List.append_nil y.segments] at hread
    obtain ⟨node, vs, hrun, hbare, hvs⟩ :=
      y.read_here portable_assigning (Segment.stops_nil y.tail) hread hlast hn
    cases hvs
    have hcomma : (before [] last).current.kind ≠ .comma := by
      rw [show (before [] last).current.kind = .eof from hlast]
      decide
    exact ⟨[node], assignments_run_last hrun hcomma k, congrArg (fun z => [z]) hbare⟩
  | cons z zs ih =>
    obtain ⟨node, vs, hrun, hbare, hvs⟩ :=
      y.read_here portable_assigning (Segment.stops_comma y.tail _ _) hread hlast hn
    have hlength := hread.length_eq
    rw [chain, List.length_append, ← hvs.length_eq] at hlength
    obtain ⟨v, vs, rfl, (hv : v.kind = .comma), -, hvs⟩ := hvs.exists_cons
    rw [List.length_cons] at hlength
    rw [Ahead.size_before] at hn
    obtain ⟨j, rfl⟩ : ∃ j, k = j + 1 := ⟨k - 1, by omega⟩
    obtain ⟨nodes, hnodes, hbares⟩ := ih z hvs (by rw [Ahead.size_before]; omega) j (by omega)
    have hadvance : (before (v :: vs) last).advance = .ok (before vs last) :=
      Ahead.advance_before (by rw [hv]; decide)
    exact ⟨node :: nodes, assignments_run_more hrun hv hadvance hnodes, congrArg₂ List.cons hbare hbares⟩

/-- Their text is parsed as the program of all of them. -/
theorem parse_chain (file : String) (ys : List (Passage assigning)) {source : String} (hys : ys ≠ [])
    (hsource : source.toList = [','].intercalate (ys.map text)) :
    ∃ nodes span, Node.parse file source = .ok (.block nodes span) ∧
      nodes.map Node.bare = ys.map fun y => y.node.bare := by
  obtain ⟨y, ys, rfl⟩ := List.exists_cons_of_ne_nil hys
  obtain ⟨us, last, hus, hlast, hread⟩ :=
    TokenStream.ofChars_segments file (legible_chain y ys) (blank_chainTail y ys)
  rw [text_chain, ← hsource] at hus
  have hfuel : us.length < (before us last).size := Ahead.length_lt_size us last
  obtain ⟨nodes, hnodes, hbares⟩ := read_chain y ys hread hlast (Nat.le_refl _) hfuel
  obtain ⟨first, b, hfirst, -⟩ := bind_eq_ok (show assignments _ (_ + 1) _ = _ from hnodes)
  obtain ⟨t, u, vs, rfl, ht, hu⟩ := starts_of_assignment hlast hfirst
  have hline : statement (Parser.expr (2 * (before (t :: u :: vs) last).size + 1) .ignored)
      (before (t :: u :: vs) last) = .ok (nodes, before [] last) :=
    (statement_of_assignment ht (Ahead.following_before t (u :: vs) last) hu).trans hnodes
  have hskip : bounded skipNewlines (before (t :: u :: vs) last) = .ok ((), before (t :: u :: vs) last) :=
    skipNewlines_run_no (by rw [Ahead.current_before, ht]; decide) _
  obtain ⟨span, b, hprogram⟩ := program_of_lines (Ahead.closed_before hlast _) (.last hskip hline hlast)
  refine ⟨nodes, span, Node.parse_eq_ok_iff.2 ⟨_, b, ?_, hprogram⟩, hbares⟩
  rw [hus, Ahead.start_eq_before]

end Passage

/-! ## Texts that are passages -/

/-- The text is one statement on its own, and no newline stands before its first token or behind its last
one. -/
structure Solitary (file text : String) (node : Node) : Prop where
  parsed : ∃ span, Node.parse file text = .ok (.block [node] span)
  first : ∀ t ∈ (TokenStream.ofChars file text.toList).tokens.head?, t.kind ≠ .newline
  last : ∀ t ∈ (TokenStream.ofChars file text.toList).tokens.getLast?, t.kind ≠ .newline

namespace Solitary

open Reckon.Parser

variable {file text : String} {node : Node}

theorem passage {p : Nat → Parser Node} (h : Solitary file text node)
    (hline : ∀ {n a b}, statement (Parser.expr n .ignored) a = .ok ([node], b) →
      p n a = .ok (node, b) ∧ node.isEmpty = false) :
    ∃ x : Passage p, x.node = node ∧ x.text = text.toList := by
  obtain ⟨span, hparse⟩ := h.parsed
  obtain ⟨ts, last, cs, span', hts, hblock, hlines⟩ := Node.lines_of_parse hparse
  obtain ⟨rfl, -⟩ := Node.block.inj hblock
  obtain ⟨hkinds, hlast⟩ := TokenStream.kind_of_ofChars hts
  obtain ⟨ps, tail, htext, hps, htail⟩ := TokenStream.exists_segments hts
  obtain ⟨us, end₁, hus, -, hread⟩ := TokenStream.ofChars_segments file hps htail
  have hfirst := h.first
  have hend := h.last
  rw [htext] at hts
  cases hts.symm.trans hus
  rw [htext, hts] at hfirst hend
  obtain ⟨b, hrun, hstop⟩ := statement_of_ends hkinds hlast hfirst hend hlines
  obtain ⟨hrun, hsome⟩ := hline hrun
  exact ⟨⟨ps, tail, ts, last, node, hps, htail, hread, hkinds, hlast, ⟨b, hrun, hstop⟩, hsome⟩, rfl,
    htext.symm⟩

/-- A statement that is no assignment is an expression. -/
theorem exists_expression (h : Solitary file text node) (hnode : node.isAssignment = false) :
    ∃ x : Passage expression, x.node = node ∧ x.text = text.toList :=
  h.passage fun hrun => expr_of_statement hrun hnode

theorem exists_assigning (h : Solitary file text node) (hnode : node.isAssignment = true) :
    ∃ x : Passage assigning, x.node = node ∧ x.text = text.toList := by
  refine h.passage fun hrun => ⟨assignment_of_statement hrun hnode, ?_⟩
  cases node <;> first | rfl | cases hnode

/-- Texts that are assignments are passages. -/
theorem exists_passages {ms : List (String × Node)}
    (h : ∀ m ∈ ms, Solitary file m.1 m.2 ∧ m.2.isAssignment = true) :
    ∃ ys : List (Passage assigning), ys.map Passage.text = ms.map (fun m => m.1.toList) ∧
      ys.map Passage.node = ms.map Prod.snd := by
  induction ms with
  | nil => exact ⟨[], rfl, rfl⟩
  | cons m ms ih =>
    obtain ⟨⟨hm, hassign⟩, hms⟩ := List.forall_mem_cons.1 h
    obtain ⟨y, hnode, htext⟩ := hm.exists_assigning hassign
    obtain ⟨ys, htexts, hnodes⟩ := ih hms
    exact ⟨y :: ys, congrArg₂ List.cons htext htexts, congrArg₂ List.cons hnode hnodes⟩

/-- A passage is read between them, with commas before and behind it. -/
theorem parse_between {member : String} {ms ms' : List (String × Node)}
    (h : ∀ m ∈ ms ++ ms', Solitary file m.1 m.2 ∧ m.2.isAssignment = true)
    {y : Passage assigning} (hy : y.text = member.toList) :
    ∃ nodes span,
      Node.parse file (",".intercalate (ms.map Prod.fst ++ member :: ms'.map Prod.fst)) =
        .ok (.block nodes span) ∧
      nodes.map Node.bare = (ms.map Prod.snd ++ y.node :: ms'.map Prod.snd).map Node.bare := by
  obtain ⟨hms, hms'⟩ := List.forall_mem_append.1 h
  obtain ⟨ys, htexts, hnodes⟩ := exists_passages hms
  obtain ⟨ys', htexts', hnodes'⟩ := exists_passages hms'
  have htext : (",".intercalate (ms.map Prod.fst ++ member :: ms'.map Prod.fst)).toList =
      [','].intercalate ((ys ++ y :: ys').map Passage.text) := by
    rw [String.toList_intercalate]
    simp [htexts, htexts', hy, Function.comp_def]
  obtain ⟨nodes, span, hparse, hbares⟩ := Passage.parse_chain file (ys ++ y :: ys')
    (List.append_ne_nil_of_right_ne_nil ys (List.cons_ne_nil y ys')) htext
  refine ⟨nodes, span, hparse, ?_⟩
  rw [hbares, ← hnodes, ← hnodes']
  simp [Function.comp_def]

end Solitary

end Reckon
