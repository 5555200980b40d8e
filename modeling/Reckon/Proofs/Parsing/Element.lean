import Reckon.Proofs.Parsing.Climbing
import Reckon.Proofs.Parsing.Respaced
import Reckon.Proofs.Parsing.Taken
import Reckon.Proofs.Parsing.WellFormed

/-!
# Expressions as elements of a matrix row

An expression that is written without blanks reads the same whether blanks matter or not, since each of
its signs joins its neighbours (`Parser.expr_spacing`).  So it can be an element of a matrix row
(`Element`), with a separator or another element behind it, and a blank before it, which only a sign at its
front would notice, and there it starts an operand (`Parser.expr_sign`).

What stands behind an element has to leave it as it is (`Element.StopsBefore`).  A comma, a semicolon and the
closing bracket do so, and so does another element after a blank, with two exceptions: a parenthesis behind
a name makes a call of it, and a sign goes on with the body of a definition (`Token.Apart`).
-/

namespace Reckon

open Ahead (before)

/-! ## Expressions without blanks -/

/-- From here on each sign joins its neighbours. -/
def Ahead.Glued (a : Ahead) : Prop :=
  ∀ b, a.Reaches b → b.current.kind = .plus ∨ b.current.kind = .minus →
    b.current.joinsNeighbours = true

theorem Ahead.Glued.reaches {a b : Ahead} (h : a.Glued) (hr : a.Reaches b) : b.Glued :=
  fun c hc => h c (hr.trans hc)

namespace Parser

variable {factor expr expr' : Parser Node} {a : Ahead} {t t' last : Token} {ts : List Token}

theorem operator?_spacing (h : t.kind = .plus ∨ t.kind = .minus → t.joinsNeighbours = true)
    (s s' : Spacing) (bound : Nat) : operator? s bound t = operator? s' bound t := by
  unfold operator?
  by_cases hsign : t.kind = .plus ∨ t.kind = .minus
  · simp only [h hsign, Bool.not_true, Bool.and_false]
  · cases hk : t.kind <;> simp_all [BinaryOp.ofKind?, BinaryOp.isSign, BinaryOp.level]

theorem climb_spacing (hf : Moves factor) (ha : a.Glued) (s s' : Spacing) (n bound : Nat) (left : Node) :
    climb factor s n bound left a = climb factor s' n bound left a := by
  induction n generalizing bound left a with
  | zero => rfl
  | succ n ih =>
    have hsame := operator?_spacing (ha a (.refl a)) s s' bound
    cases hop : operator? s' bound a.current with
    | none => rw [climb_none (hsame.trans hop), climb_none hop]
    | some op =>
      rw [climb_some (hsame.trans hop), climb_some hop]
      refine bind_congr (join_congr fun b hb => ?_) fun x c hx => ?_
      · refine bind_congr rfl fun y d hy => ih (ha.reaches ?_) _ _
        exact Relation.ReflTransGen.head hb (hf b y d hy)
      · obtain ⟨b, y, hb, hy⟩ := join_eq_ok hx
        have hmoves : Moves (factor >>= climb factor s n op.level) := hf.bind fun _ => hf.climb _ _ _ _
        exact ih (ha.reaches (.head hb (hmoves b y c hy))) _ _

theorem ternaryWith_spacing (hf : Moves factor) (he : Moves expr) (ha : a.Glued)
    (hexpr : ∀ b, a.Reaches b → expr b = expr' b) (s s' : Spacing) :
    ternaryWith factor expr s a = ternaryWith factor expr' s' a := by
  have hbinary : binary factor s BinaryOp.levels a = binary factor s' BinaryOp.levels a :=
    bind_congr rfl fun x b hx => climb_spacing hf (ha.reaches (hf a x b hx)) _ _ _ _ _
  refine bind_congr hbinary fun c b hc => ?_
  have hb : a.Reaches b := hf.binary _ _ a c b hc
  rw [bind_run_ok (at?_run _ b), bind_run_ok (at?_run _ b)]
  split
  · -- Both branches start at positions that are reached from here.
    refine bind_congr rfl fun _ d hd => ?_
    have hd := hb.trans (Moves.require _ _ _ _ hd)
    refine bind_congr rfl fun _ d' hd' => ?_
    have hd' := hd.trans (Moves.advance _ _ _ hd')
    refine bind_congr (hexpr _ hd') fun _ e hyes => ?_
    have he' := hd'.trans (he _ _ _ hyes)
    refine bind_congr rfl fun _ e' hreq => ?_
    have he'' := he'.trans (Moves.require _ _ _ _ hreq)
    refine bind_congr rfl fun _ f hcolon => ?_
    exact bind_congr (hexpr _ (he''.trans (Moves.expect _ _ _ _ hcolon))) fun _ _ _ => rfl
  · rfl

/-- Where each sign joins its neighbours, blanks do not matter. -/
theorem expr_spacing (n : Nat) (ha : a.Glued) (s s' : Spacing) : Parser.expr n s a = Parser.expr n s' a := by
  induction n generalizing a with
  | zero => rfl
  | succ n ih =>
    obtain ⟨he, hf, -⟩ := Moves.grammar n
    exact ternaryWith_spacing hf (he s) ha (fun b hb => ih (ha.reaches hb)) s s'

/-! ## The first token of an expression -/

/-- The kinds of token that an operand starts with. -/
def starting : List Token.Kind :=
  [.plus, .minus, .bang, .number, .lparen, .lbracket, .reservedValue, .identifier]

section First

variable {expr : Spacing → Parser Node} {statements : Parser (List Node)} {n : Nat} {s : Spacing}
  {x : Node} {b : Ahead}

theorem starting_of_factorWith (h : factorWith factor expr statements a = .ok (x, b))
    (hx : x.isEmpty = false) : a.current.kind ∈ starting := by
  rw [factorWith, bind_run_ok (current_run a)] at h
  cases hk : a.current.kind <;> rw [hk] at h <;> first | decide | (cases h; cases hx)

/-- An expression starts with an operand. -/
theorem operand_of_ternaryWith {expr : Parser Node} (h : ternaryWith factor expr s a = .ok (x, b))
    (hx : x.isEmpty = false) : ∃ y c, factor a = .ok (y, c) ∧ y.isEmpty = false := by
  have hrefused : ∀ {y : Node} {β : Type} {f : Node → Parser β} {c : Ahead} {r : β × Ahead},
      y.isEmpty = true → (require y >>= f) c ≠ .ok r := by
    intro y β f c r hy hrun
    obtain ⟨_, _, hrequire, -⟩ := bind_eq_ok hrun
    rw [(require_eq_ok hrequire).2.2] at hy
    cases hy
  obtain ⟨c, d, hc, hrest⟩ := bind_eq_ok h
  obtain ⟨y, e, hy, hclimb⟩ := bind_eq_ok hc
  refine ⟨y, e, hy, Bool.eq_false_iff.2 fun hempty => ?_⟩
  -- Nothing is added to an operand that is missing.
  have hc : c = y := by
    have hrun : climb factor s (e.rest.length + 1 + 1) BinaryOp.levels y e = .ok (c, d) := hclimb
    cases hop : operator? s BinaryOp.levels e.current with
    | none =>
      rw [climb_none hop] at hrun
      cases hrun
      rfl
    | some op =>
      rw [climb_some hop] at hrun
      obtain ⟨_, _, hjoin, -⟩ := bind_eq_ok hrun
      exact absurd hjoin (hrefused hempty)
  subst hc
  rw [bind_run_ok (at?_run _ d)] at hrest
  split at hrest
  · exact hrefused hempty hrest
  · cases hrest
    rw [hempty] at hx
    cases hx

theorem operand_of_expr (h : Parser.expr n s a = .ok (x, b)) (hx : x.isEmpty = false) :
    ∃ m y c, Parser.factor (m + 1) a = .ok (y, c) ∧ y.isEmpty = false := by
  cases n with
  | zero => cases h
  | succ n =>
    obtain ⟨y, c, hy, hsome⟩ := operand_of_ternaryWith h hx
    cases n with
    | zero => cases hy
    | succ m => exact ⟨m, y, c, hy, hsome⟩

theorem starting_of_expr (h : Parser.expr n s a = .ok (x, b)) (hx : x.isEmpty = false) :
    a.current.kind ∈ starting := by
  obtain ⟨m, y, c, hy, hsome⟩ := operand_of_expr h hx
  exact starting_of_factorWith hy hsome

/-- A sign in front is taken, and then the operand is read. -/
theorem factorWith_sign {op : UnaryOp} (ht : UnaryOp.ofKind? t.kind = some op) :
    factorWith factor expr statements (before (t :: ts) last) =
      (do
        let operand ← require (← factor)
        return .unary op operand (Span.join (some t.span) operand.span) : Parser Node)
        (before ts last) := by
  have hk : t.kind ≠ .eof := by
    intro hk
    rw [hk] at ht
    cases ht
  rw [factorWith, bind_run_ok (current_run _), Ahead.current_before, ht]
  exact bind_run_ok (advance_run_ok (Ahead.advance_before hk))

/-- Of a sign in front only its kind and its place matter. -/
theorem expr_sign {op : UnaryOp} (ht : UnaryOp.ofKind? t.kind = some op) (hkind : t'.kind = t.kind)
    (hspan : t'.span = t.span) (h : Parser.expr n s (before (t :: ts) last) = .ok (x, b)) :
    Parser.expr n s (before (t' :: ts) last) = .ok (x, b) := by
  cases n with
  | zero => cases h
  | succ n =>
    cases n with
    | zero =>
      obtain ⟨_, _, hbinary, -⟩ := bind_eq_ok h
      obtain ⟨_, _, hfactor, -⟩ := bind_eq_ok hbinary
      cases hfactor
    | succ n =>
      have hfactor : Parser.factor (n + 1) (before (t' :: ts) last) =
          Parser.factor (n + 1) (before (t :: ts) last) := by
        rw [Parser.factor, factorWith_sign ht, factorWith_sign (hkind ▸ ht), hspan]
      rw [Parser.expr, ternaryWith, binary, bind_assoc, bind_run] at h ⊢
      rwa [hfactor]

/-- A sign does not stand alone. -/
theorem ne_nil_of_expr_sign {op : UnaryOp} (ht : UnaryOp.ofKind? t.kind = some op)
    (hlast : last.kind = .eof) (h : Parser.expr n s (before (t :: ts) last) = .ok (x, b))
    (hx : x.isEmpty = false) : ts ≠ [] := by
  rintro rfl
  obtain ⟨m, y, c, hy, -⟩ := operand_of_expr h hx
  rw [Parser.factor, factorWith_sign ht] at hy
  obtain ⟨z, d, hz, hrest⟩ := bind_eq_ok hy
  obtain ⟨_, _, hrequire, -⟩ := bind_eq_ok hrest
  cases m with
  | zero => cases hz
  | succ m =>
    have hstart := starting_of_factorWith hz (require_eq_ok hrequire).2.2
    have hk : last.kind ∈ starting := hstart
    rw [hlast] at hk
    exact absurd hk (by decide)

end First

/-! ## Lines that are expressions -/

theorem isAssignment_of_assignment {e : Parser Node} (h : assignment e a = .ok (x, b)) :
    x.isAssignment = true := by
  obtain ⟨target, c, -, h⟩ := bind_eq_ok h
  rw [bind_run_ok (current_run c)] at h
  rcases hop : assignment? c.current.kind with - | - | op <;> rw [hop] at h
  all_goals
    obtain ⟨_, _, -, h⟩ := bind_eq_ok h
    obtain ⟨_, _, -, h⟩ := bind_eq_ok h
    obtain ⟨_, _, -, h⟩ := bind_eq_ok h
    cases h
    rfl

/-- A chain of assignments starts with one. -/
theorem assignments_eq_cons {e : Parser Node} {xs : List Node} (h : assignments e n a = .ok (xs, b)) :
    ∃ y ys, xs = y :: ys ∧ y.isAssignment = true := by
  cases n with
  | zero => cases h
  | succ n =>
    obtain ⟨y, c, hy, h⟩ := bind_eq_ok h
    obtain ⟨comma, d, -, h⟩ := bind_eq_ok h
    cases comma with
    | true =>
      obtain ⟨rest, _, -, h⟩ := bind_eq_ok h
      cases h
      exact ⟨y, rest, rfl, isAssignment_of_assignment hy⟩
    | false =>
      cases h
      exact ⟨y, [], rfl, isAssignment_of_assignment hy⟩

/-- Where no newline stands, there is one line. -/
theorem statement_of_lines {line : Parser (List Node)} {xs : List Node} (hm : Moves line)
    (hnewline : ∀ t ∈ ts, t.kind ≠ .newline) (hkinds : ∀ t ∈ ts, t.kind ≠ .eof)
    (hlast : last.kind = .eof) (h : Lines line (before ts last) xs) :
    ∃ b, line (before ts last) = .ok (xs, b) ∧ b.current.kind = .eof := by
  have hnone : ∀ b, (before ts last).Reaches b → b.current.kind ≠ .newline := by
    intro b hb
    rcases hb.current_mem hkinds hlast with hmem | hend
    · exact hnewline _ hmem
    · rw [hend, hlast]
      decide
  have hskip : ∀ {b}, bounded skipNewlines (before ts last) = .ok ((), b) → b = before ts last := by
    intro b hb
    rw [bounded_run, Ahead.size, skipNewlines_run_no (hnone _ (.refl _))] at hb
    cases hb
    rfl
  cases h with
  | last hb hline hend =>
    obtain rfl := hskip hb
    exact ⟨_, hline, hend⟩
  | more hb hline hnext _ =>
    obtain rfl := hskip hb
    exact absurd hnext (hnone _ (hm _ _ _ hline))

/-- A line is assignments, or an expression, or nothing. -/
theorem statement_cases {e : Parser Node} {b : Ahead} {xs : List Node} (h : statement e a = .ok (xs, b)) :
    bounded (assignments e) a = .ok (xs, b) ∨
      ∃ x, e a = .ok (x, b) ∧ xs = if x.isEmpty then [] else [x] := by
  have hline : ∀ assigns : Bool, (if assigns = true then bounded (assignments e)
      else do
        let node ← e
        return if node.isEmpty then [] else [node]) a = .ok (xs, b) →
      bounded (assignments e) a = .ok (xs, b) ∨
        ∃ x, e a = .ok (x, b) ∧ xs = if x.isEmpty then [] else [x] := by
    rintro (- | -) hrun
    · obtain ⟨y, c, hy, hresult⟩ := bind_eq_ok (p := e) hrun
      cases hresult
      exact .inr ⟨y, hy, rfl⟩
    · exact .inl hrun
  rw [statement, bind_run_ok (at?_run _ a)] at h
  split at h
  · obtain ⟨u, c, hu, hrest⟩ := bind_eq_ok h
    obtain rfl := eq_of_following hu
    exact hline _ hrest
  · exact hline false h

/-- A line that is one node, and no assignment, is an expression. -/
theorem expr_of_statement {e : Parser Node} {b : Ahead} {x : Node} (h : statement e a = .ok ([x], b))
    (hx : x.isAssignment = false) : e a = .ok (x, b) ∧ x.isEmpty = false := by
  rcases statement_cases h with hassigns | ⟨y, hy, hsome⟩
  · obtain ⟨y, ys, hxs, hy⟩ := assignments_eq_cons hassigns
    cases hxs
    rw [hy] at hx
    cases hx
  · cases hempty : y.isEmpty <;> rw [hempty] at hsome <;> cases hsome
    exact ⟨hy, hempty⟩

end Parser

/-! ## Segments without blanks -/

namespace Segment

variable {p : Segment} {ps qs : List Segment} {rest rest' : List Char} {ts : List Token}

/-- No blanks stand before the segments. -/
def Close (ps : List Segment) : Prop :=
  ∀ p ∈ ps, p.blanks = []

/-- The same segments with these blanks before the first one. -/
def spread (blanks : List Char) : List Segment → List Segment
  | [] => []
  | p :: ps => { p with blanks := blanks } :: ps

theorem length_spread (blanks : List Char) (ps : List Segment) :
    (spread blanks ps).length = ps.length := by
  cases ps <;> rfl

theorem Close.of_text (hps : Legible rest ps) (h : ∀ c ∈ text ps rest, Token.isSkipped c = false) :
    Close ps := by
  intro p hp
  refine List.eq_nil_iff_forall_not_mem.2 fun c hc => ?_
  have hnot := h c (mem_text hp (.inl hc))
  rw [(hps.of_mem hp).1 c hc] at hnot
  cases hnot

/-- Where no blanks are, none are next to a sign. -/
theorem Close.respaced (h : Close ps) (rest rest' : List Char) : Respaced rest rest' ps ps := by
  induction ps with
  | nil => exact .nil
  | cons p ps ih =>
    obtain ⟨hp, hps⟩ := List.forall_mem_cons.1 h
    refine .cons rfl rfl Iff.rfl (fun _ => ?_) (ih hps)
    unfold joins
    rw [hp]
    simp [Cursor.isGap]

theorem Close.joinsNeighbours (h : Close ps) (hread : ReadAs rest ps ts) :
    ∀ t ∈ ts, t.joinsNeighbours = true := by
  induction hread with
  | nil => exact fun t ht => by cases ht
  | cons _ _ hbefore _ _ _ ih =>
    obtain ⟨hp, hps⟩ := List.forall_mem_cons.1 h
    refine List.forall_mem_cons.2 ⟨?_, ih hps⟩
    unfold Token.joinsNeighbours
    rw [hbefore, hp]
    simp [Cursor.isGap]

/-- The segments are read where other blanks stand before them and a break behind them. -/
theorem Legible.spread (h : Legible [] ps) {blanks : List Char}
    (hblanks : ∀ c ∈ blanks, Token.isSkipped c = true) (hrest : Token.Breaks rest) :
    Legible rest (spread blanks ps) := by
  cases h.of_breaks (fun _ hc => by cases hc) hrest with
  | nil => exact .nil
  | cons _ hscan htail => exact .cons hblanks hscan htail

end Segment

/-- A token that differs from the first one of a row in its blanks only can replace it, if it is no sign. -/
theorem Token.Retold.of_head {next t t' : Token} {ts us : List Token} (h : Token.Retold next ts (t :: us))
    (hkind : t'.kind = t.kind) (htext : t'.text = t.text) (hspan : t'.span = t.span)
    (hsign : ¬ (t.kind = .plus ∨ t.kind = .minus)) : Token.Retold next ts (t' :: us) := by
  cases h with
  | cons halike hunit htail =>
    refine .cons (.of_joins ?_ ?_ fun hsigns => ?_) (fun hnumber => ?_) htail
    · rw [hkind, halike.kind]
    · rw [htext, halike.text]
    · exact absurd (halike.kind ▸ hsigns) hsign
    · rw [← hunit hnumber]
      unfold Token.HasUnit Token.Touches
      rw [hspan]

/-- Two rows of tokens stay apart with a blank between them: the second one does not make a call of a name
at the end of the first one, and does not go on with the body of a definition there. -/
structure Token.Apart (ts us : List Token) : Prop where
  call : ∀ u ∈ us.head?, u.kind = .lparen → ¬ Token.EndsInName ts
  body : ∀ u ∈ us.head?, u.kind = .plus ∨ u.kind = .minus → ¬ Token.EndsInBody ts

/-- They do so if the kinds of the tokens leave no doubt. -/
theorem Token.Apart.of_kinds {ts us : List Token}
    (hcall : (∀ u ∈ us.head?, u.kind ≠ .lparen) ∨ ∀ t ∈ ts.getLast?, t.kind ≠ .identifier)
    (hbody : (∀ t ∈ ts, t.kind ≠ .assign ∧ t.kind ≠ .fatArrow) ∨
      ∀ u ∈ us.head?, u.kind ≠ .plus ∧ u.kind ≠ .minus) : Token.Apart ts us := by
  constructor
  · rintro u hu hparen ⟨vs, t, rfl, ht, -⟩
    rcases hcall with hcall | hcall
    · exact hcall u hu hparen
    · exact hcall t (by simp) ht
  · rintro u hu hsign ⟨vs, t, ws, rfl, ht, -⟩
    rcases hbody with hbody | hbody
    · obtain ⟨hassign, harrow⟩ := hbody t (by simp)
      exact ht.elim hassign harrow
    · exact hsign.elim (hbody u hu).1 (hbody u hu).2

/-! ## Elements -/

/-- An expression that is written without blanks: its segments, the tokens that they are read as, and its
node. -/
structure Element where
  segments : List Segment
  tokens : List Token
  /-- The end of input behind the tokens. -/
  last : Token
  node : Node
  legible : Segment.Legible [] segments
  close : Segment.Close segments
  reads : Segment.ReadAs [] segments tokens
  kinds : ∀ t ∈ tokens, t.kind ≠ .eof
  last_kind : last.kind = .eof
  expression : ∃ b, Parser.expr (2 * (before tokens last).size + 1) .ignored (before tokens last) =
    .ok (node, b) ∧ b.current.kind = .eof
  not_empty : node.isEmpty = false

namespace Element

variable {x y : Element} {z : Segment} {zs : List Segment} {rest : List Char} {us : List Token}
  {last : Token}

/-- It is the same expression where blanks matter. -/
theorem run (x : Element) (s : Parser.Spacing) :
    ∃ b, Parser.expr (2 * (before x.tokens x.last).size + 1) s (before x.tokens x.last) =
      .ok (x.node, b) ∧ b.current.kind = .eof := by
  obtain ⟨b, hrun, hend⟩ := x.expression
  have hglued : (before x.tokens x.last).Glued := by
    intro c hc hsign
    rcases hc.current_mem x.kinds x.last_kind with hmem | hend
    · exact x.close.joinsNeighbours x.reads _ hmem
    · rw [hend, x.last_kind] at hsign
      exact absurd hsign (by decide)
  exact ⟨b, (Parser.expr_spacing _ hglued s .ignored).trans hrun, hend⟩

/-- The first segment and the first token. -/
theorem exists_first (x : Element) : ∃ p ps t ts, x.segments = p :: ps ∧ x.tokens = t :: ts ∧
    t.kind = p.kind ∧ p.kind ∈ Parser.starting ∧ (p.kind = .plus ∨ p.kind = .minus → ps ≠ []) := by
  obtain ⟨b, hrun, -⟩ := x.expression
  have hstart := Parser.starting_of_expr hrun x.not_empty
  have hreads := x.reads
  rcases htokens : x.tokens with - | ⟨t, ts⟩
  · rw [htokens] at hstart
    have hk : x.last.kind ∈ Parser.starting := hstart
    rw [x.last_kind] at hk
    exact absurd hk (by decide)
  · rw [htokens] at hreads hrun hstart
    generalize x.segments = segments at hreads
    cases hreads with
    | @cons p ps _ _ hkind _ _ _ _ htail =>
      refine ⟨p, ps, t, ts, rfl, rfl, hkind, hkind ▸ hstart, fun hsign hps => ?_⟩
      have hop : ∃ op, UnaryOp.ofKind? t.kind = some op := by
        rw [hkind]
        rcases hsign with hk | hk <;> rw [hk] <;> exact ⟨_, rfl⟩
      obtain ⟨op, hop⟩ := hop
      refine Parser.ne_nil_of_expr_sign hop x.last_kind hrun x.not_empty ?_
      have hlength := htail.length_eq
      rw [hps] at hlength
      exact List.length_eq_zero_iff.1 hlength

/-- The element stays as it is before this segment, which has the given text behind it. -/
structure StopsBefore (x : Element) (z : Segment) (behind : List Char) : Prop where
  kind : z.kind ∉ Token.continuing
  /-- It is no operator, or a sign that does not join its neighbours. -/
  operator : BinaryOp.ofKind? z.kind = none ∨
    (z.kind = .plus ∨ z.kind = .minus) ∧ z.joins behind = false
  /-- It is no unit. -/
  unit : z.kind = .identifier → z.blanks ≠ []
  /-- It makes no call. -/
  call : z.kind = .lparen → ¬ Token.EndsInName x.tokens
  /-- It does not go on with the body of a definition. -/
  body : Token.EndsInBody x.tokens → BinaryOp.ofKind? z.kind = none

theorem stopsBefore_mark (x : Element) (hz : z.kind ∈ [.comma, .semicolon, .rbracket])
    (behind : List Char) : x.StopsBefore z behind := by
  have hall : ∀ k ∈ [Token.Kind.comma, .semicolon, .rbracket],
      k ∉ Token.continuing ∧ BinaryOp.ofKind? k = none ∧ k ≠ .identifier ∧ k ≠ .lparen := by decide
  obtain ⟨hkind, hnone, hname, hparen⟩ := hall _ hz
  exact ⟨hkind, .inl hnone, fun h => absurd h hname, fun h => absurd h hparen, fun _ => hnone⟩

/-- Another element, behind a blank. -/
theorem stopsBefore_element {p : Segment} {ps : List Segment} (h : Token.Apart x.tokens y.tokens)
    (hy : y.segments = p :: ps) (rest : List Char) :
    x.StopsBefore { p with blanks := [' '] } (Segment.text ps rest) := by
  obtain ⟨p', ps', t, ts, hsegments, htokens, hkind, hstart, hmore⟩ := y.exists_first
  obtain ⟨rfl, rfl⟩ := List.cons.inj (hy.symm.trans hsegments)
  have hall : ∀ k ∈ Parser.starting, k ∉ Token.continuing ∧
      (BinaryOp.ofKind? k = none ∨ k = .plus ∨ k = .minus) := by decide
  obtain ⟨hcontinuing, hoperator⟩ := hall _ hstart
  refine ⟨hcontinuing, hoperator.imp_right fun hsign => ⟨hsign, ?_⟩, fun _ => List.cons_ne_nil _ _,
    fun hparen => ?_, fun hbody => ?_⟩
  · -- The sign is followed by another segment, and no blank stands before that.
    obtain ⟨q, qs, hqs⟩ := List.exists_cons_of_ne_nil (hmore hsign)
    have hq : q ∈ y.segments := by
      rw [hy, hqs]
      simp
    have hlexeme := (y.legible.of_mem hq).2
    obtain ⟨c, cs, hcs⟩ := List.exists_cons_of_ne_nil hlexeme.ne_nil
    have hc : Token.isSkipped c = false := hlexeme.isSkipped_of_mem (by rw [hcs]; exact List.mem_cons_self)
    unfold Segment.joins
    rw [hqs, Segment.text, y.close q hq, hcs, List.nil_append, List.cons_append, List.headD_cons,
      Cursor.isGap_eq_false hc]
    rfl
  · exact h.call t (by rw [htokens]; rfl) (hkind.trans hparen)
  · exact hoperator.resolve_right fun hsign => h.body t (by rw [htokens]; rfl) (hkind ▸ hsign) hbody

/-- Where the tokens of an element come again before such a segment, its node does so up to spans. -/
theorem carried (x : Element) {behind : List Char} (hz : x.StopsBefore z behind) {v : Token}
    (hkind : v.kind = z.kind) (hjoins : v.joinsNeighbours = z.joins behind) (hlast : last.kind = .eof)
    (hus : Token.Retold v x.tokens us) (vs : List Token) {n : Nat}
    (hn : 2 * (before x.tokens x.last).size + 1 ≤ n) :
    ∃ node, Parser.expr n .matters (before (us ++ v :: vs) last) = .ok (node, before (v :: vs) last) ∧
      node.bare = x.node.bare := by
  let X : Excerpt := ⟨v :: vs, x.last, last, x.last_kind, hlast, by
    rw [Ahead.current_before, hkind]
    exact hz.kind⟩
  have hnone : BinaryOp.ofKind? z.kind = none → ∀ s, X.Ends s := by
    intro hk s bound
    show Parser.operator? s bound v = none
    unfold Parser.operator?
    rw [hkind, hk]
  have hends : X.Ends .matters := by
    rcases hz.operator with hk | ⟨hsign, hz⟩
    · exact hnone hk _
    · intro bound
      show Parser.operator? .matters bound v = none
      unfold Parser.operator?
      rw [hkind, hjoins, hz]
      rcases hsign with hk | hk <;> rw [hk] <;> simp [BinaryOp.ofKind?, BinaryOp.isSign, BinaryOp.level]
  have htells : X.Tells x.tokens us :=
    .of_retold hus x.kinds (fun hparen => hz.call (hkind ▸ hparen)) fun hbody => hnone (hz.body hbody) _
  obtain ⟨b, hrun, hend⟩ := x.run .matters
  have hbegun : X.Begun (before x.tokens x.last) := by
    obtain ⟨p, ps, t, ts, -, htokens, -⟩ := x.exists_first
    intro hk
    rw [htokens] at hk
    exact absurd hk (x.kinds t (by rw [htokens]; exact List.mem_cons_self))
  have hexpr := ((X.carries_grammar hn).1 .matters True fun _ => hends).carries
  obtain ⟨node, b', hnode, hbare, hecho⟩ :=
    hexpr.carry ⟨_, _, htells, rfl, rfl⟩ hbegun hrun fun _ => trivial
  rw [hecho.eq_behind hend] at hnode
  exact ⟨node, hnode, hbare⟩

/-- **An element in a row.**  Behind other blanks, and before what leaves it as it is, it is read as the same
node up to spans, and what is behind it is left. -/
theorem read (x : Element) {blanks : List Char} (hz : x.StopsBefore z (Segment.text zs rest))
    (hread : Segment.ReadAs rest (Segment.spread blanks x.segments ++ z :: zs) us) (hlast : last.kind = .eof)
    {n : Nat} (hn : 2 * (before x.tokens x.last).size + 1 ≤ n) :
    ∃ node v vs, Parser.expr n .matters (before us last) = .ok (node, before (v :: vs) last) ∧
      node.bare = x.node.bare ∧ Segment.ReadAs rest (z :: zs) (v :: vs) := by
  obtain ⟨p, ps, t, ts, hsegments, htokens, hkind, -, -⟩ := x.exists_first
  have hclose : p.blanks = [] := x.close p (by rw [hsegments]; exact List.mem_cons_self)
  rw [hsegments, Segment.spread, List.cons_append] at hread
  cases hread with
  | @cons _ _ u us hk ht hbefore hafter htouches htail =>
    -- First the element as if no blanks stood before it.
    obtain ⟨u₀, hu₀⟩ : ∃ u₀ : Token, u₀ = { u with blankBefore := false } := ⟨_, rfl⟩
    have hread₀ : Segment.ReadAs rest (x.segments ++ z :: zs) (u₀ :: us) := by
      rw [hsegments, hu₀, List.cons_append]
      exact .cons hk ht (by rw [hclose]; rfl) hafter htouches htail
    have hname : last.kind ≠ .identifier := by
      rw [hlast]
      decide
    obtain ⟨us₁, vs, hus, hvs, hretold⟩ := x.reads.retold (x.close.respaced _ _) hread₀
      (fun q hq => by cases hq; exact hz.unit) hname
    obtain ⟨us₂, rfl⟩ : ∃ us₂, us₁ = u₀ :: us₂ := by
      rw [htokens] at hretold
      cases hretold with
      | cons _ _ _ => exact ⟨_, by rw [(List.cons.inj hus).1]⟩
    obtain rfl : us = us₂ ++ vs := (List.cons.inj hus).2
    have hvs' := hvs
    cases hvs with
    | @cons _ _ v vs hvkind _ hvbefore hvafter _ _ =>
      have hjoins : v.joinsNeighbours = z.joins (Segment.text zs rest) := by
        rw [Token.joinsNeighbours, hvbefore, hvafter, Segment.joins]
      by_cases hsign : u₀.kind = .plus ∨ u₀.kind = .minus
      · -- A sign in front is read as such, whether a blank stands before it or not.
        obtain ⟨op, hop⟩ : ∃ op, UnaryOp.ofKind? u₀.kind = some op := by
          rcases hsign with hk | hk <;> rw [hk] <;> exact ⟨_, rfl⟩
        obtain ⟨node, hnode, hbare⟩ := x.carried hz hvkind hjoins hlast hretold vs hn
        refine ⟨node, v, vs, ?_, hbare, hvs'⟩
        exact Parser.expr_sign hop (by rw [hu₀]) (by rw [hu₀]) hnode
      · have hretold' : Token.Retold v x.tokens (u :: us₂) :=
          hretold.of_head (by rw [hu₀]) (by rw [hu₀]) (by rw [hu₀]) hsign
        obtain ⟨node, hnode, hbare⟩ := x.carried hz hvkind hjoins hlast hretold' vs hn
        exact ⟨node, v, vs, hnode, hbare, hvs'⟩

/-! ### Elements from texts -/

/-- A text without blanks and newlines that is one expression is an element. -/
theorem exists_of_parse {file text : String} {node : Node} {span : Option Span}
    (hblank : ∀ c ∈ text.toList, Token.isSkipped c = false ∧ c ≠ '\n')
    (hparse : Node.parse file text = .ok (.block [node] span)) (hnode : node.isAssignment = false) :
    ∃ x : Element, x.node = node ∧ x.tokens = (TokenStream.ofChars file text.toList).tokens ∧
      Segment.text x.segments [] = text.toList := by
  obtain ⟨ts, last, cs, span', hts, hblock, hlines⟩ := Node.lines_of_parse hparse
  obtain ⟨rfl, -⟩ := Node.block.inj hblock
  obtain ⟨hkinds, hlast⟩ := TokenStream.kind_of_ofChars hts
  obtain ⟨ps, tail, htext, hps, htail⟩ := TokenStream.exists_segments hts
  obtain rfl : tail = [] := by
    refine List.eq_nil_iff_forall_not_mem.2 fun c hc => ?_
    have hnot := (hblank c (by rw [htext, Segment.text_eq_append]; exact List.mem_append_right _ hc)).1
    rw [htail c hc] at hnot
    cases hnot
  rw [htext] at hts
  obtain ⟨us, end₁, hus, -, hread⟩ := TokenStream.ofChars_segments file hps htail
  cases hts.symm.trans hus
  have hnewline : ∀ t ∈ ts, t.kind ≠ .newline := by
    intro t ht hk
    obtain ⟨p, hp, hpk⟩ := hread.exists_segment ht
    have hlexeme := (hps.of_mem hp).2
    rw [← hpk, hk] at hlexeme
    refine (hblank '\n' ?_).2 rfl
    rw [htext]
    exact Segment.mem_text hp (.inr (by rw [hlexeme.eq_newline]; exact List.mem_cons_self))
  obtain ⟨b, hline, hend⟩ := Parser.statement_of_lines
    ((Parser.Moves.grammar _).1 _).statement hnewline hkinds hlast hlines
  obtain ⟨hexpr, hempty⟩ := Parser.expr_of_statement hline hnode
  let x : Element := ⟨ps, ts, last, node, hps, .of_text hps fun c hc => (hblank c (htext ▸ hc)).1, hread,
    hkinds, hlast, ⟨b, hexpr, hend⟩, hempty⟩
  exact ⟨x, rfl, by rw [htext, hts], htext.symm⟩

end Element

end Reckon
