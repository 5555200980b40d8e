import Reckon.Proofs.Lexing.Position
import Reckon.Proofs.Parsing.Position
import Reckon.Proofs.Parsing.Uniform

/-!
# Parsers only move forward

What each small parser does at a position, stated once, and from it that every parser of the grammar moves
(`Moves`): a run that gives a result stops at a position that taking tokens leads to.  Moving is kept by all that
parsers are made of (`Moves.uniform`), so the rules need not be gone through here.
-/

namespace Reckon

/-- The second token is the unit of the first one, which is a number. -/
def Token.HasUnit (t u : Token) : Prop :=
  u.kind = .identifier ∧ (LengthUnit.ofSymbol? u.text).isSome = true ∧ t.Touches u

namespace Parser

variable {α β : Type} {a b : Ahead}

/-! ## Runs of the small parsers -/

theorem bind_run (p : Parser α) (f : α → Parser β) (a : Ahead) :
    (p >>= f) a =
      match p a with
      | .ok (x, b) => f x b
      | .error e => .error e := by
  show (p a >>= fun r => f r.1 r.2) = _
  cases p a <;> rfl

theorem bind_run_ok {p : Parser α} {f : α → Parser β} {x : α} (h : p a = .ok (x, b)) :
    (p >>= f) a = f x b := by
  rw [bind_run, h]

theorem bind_eq_ok {p : Parser α} {f : α → Parser β} {r : β × Ahead} (h : (p >>= f) a = .ok r) :
    ∃ x b, p a = .ok (x, b) ∧ f x b = .ok r := by
  rw [bind_run] at h
  cases hp : p a with
  | error e => rw [hp] at h; cases h
  | ok xb => exact ⟨xb.1, xb.2, rfl, by rwa [hp] at h⟩

/-- Two runs that start alike are alike if they go on alike. -/
theorem bind_congr {p q : Parser α} {f g : α → Parser β} (hpq : p a = q a)
    (h : ∀ x b, p a = .ok (x, b) → f x b = g x b) : (p >>= f) a = (q >>= g) a := by
  rw [bind_run, bind_run, ← hpq]
  cases hp : p a with
  | error e => rfl
  | ok xb => exact h xb.1 xb.2 hp

@[simp]
theorem pure_run (x : α) (a : Ahead) : (pure x : Parser α) a = .ok (x, a) := rfl

@[simp]
theorem current_run (a : Ahead) : current a = .ok (a.current, a) := rfl

@[simp]
theorem at?_run (k : Token.Kind) (a : Ahead) : at? k a = .ok (a.current.kind == k, a) := rfl

theorem get_run (a : Ahead) : (get : Parser Ahead) a = .ok (a, a) := rfl

/-- A step that does not look at the position. -/
theorem lift_run (x : Except Error α) (a : Ahead) :
    (liftM x : Parser α) a = x.map fun y => (y, a) := by
  cases x <;> rfl

theorem advance_run (a : Ahead) : advance a = a.advance.map fun b => (a.current, b) := by
  unfold advance
  rw [bind_run_ok (get_run a), bind_run, lift_run]
  cases a.advance <;> rfl

theorem advance_run_ok (h : a.advance = .ok b) : advance a = .ok (a.current, b) := by
  rw [advance_run, h]
  rfl

theorem following_run (a : Ahead) : following a = a.following.map fun t => (t, a) := by
  unfold following
  rw [bind_run_ok (get_run a), lift_run]

theorem require_run_ok {node : Node} (h : node.isEmpty = false) (a : Ahead) :
    require node a = .ok (node, a) := by
  unfold require
  rw [h]
  rfl

theorem require_eq_ok {node x : Node} (h : require node a = .ok (x, b)) :
    x = node ∧ b = a ∧ node.isEmpty = false := by
  unfold require at h
  split at h
  · cases h
  · rename_i he
    cases h
    exact ⟨rfl, rfl, Bool.eq_false_iff.2 he⟩

theorem advance_eq_ok {t : Token} (h : advance a = .ok (t, b)) :
    t = a.current ∧ a.advance = .ok b := by
  rw [advance_run] at h
  cases ha : a.advance with
  | error e => rw [ha] at h; cases h
  | ok c => rw [ha] at h; cases h; exact ⟨rfl, rfl⟩

theorem bounded_run (loop : Nat → Parser α) (a : Ahead) : bounded loop a = loop a.size a := rfl

theorem expect_of_kind {k : Token.Kind} (hk : a.current.kind = k) : expect k a = advance a := by
  unfold expect
  rw [bind_run_ok (at?_run k a), if_pos (beq_iff_eq.2 hk)]

theorem expect_eq_ok {k : Token.Kind} {t : Token} (h : expect k a = .ok (t, b)) :
    a.current.kind = k ∧ advance a = .ok (t, b) := by
  by_cases hk : a.current.kind = k
  · exact ⟨hk, (expect_of_kind hk).symm.trans h⟩
  · unfold expect at h
    rw [bind_run_ok (at?_run k a), if_neg (mt beq_iff_eq.1 hk)] at h
    cases h

theorem expect_run_ok {k : Token.Kind} (hk : a.current.kind = k) (h : a.advance = .ok b) :
    expect k a = .ok (a.current, b) := by
  rw [expect_of_kind hk, advance_run_ok h]

theorem accept_run_ok {k : Token.Kind} (hk : a.current.kind = k) (h : a.advance = .ok b) :
    accept k a = .ok (true, b) := by
  unfold accept
  rw [bind_run_ok (at?_run k a), if_pos (beq_iff_eq.2 hk), bind_run_ok (advance_run_ok h), pure_run]

theorem accept_run_no {k : Token.Kind} (hk : a.current.kind ≠ k) : accept k a = .ok (false, a) := by
  unfold accept
  rw [bind_run_ok (at?_run k a), if_neg (mt beq_iff_eq.1 hk), pure_run]

theorem skipNewlines_run_no (h : a.current.kind ≠ .newline) (n : Nat) :
    skipNewlines (n + 1) a = .ok ((), a) := by
  rw [skipNewlines, bind_run_ok (accept_run_no h)]
  rfl

theorem skipNewlines_run_newline (hk : a.current.kind = .newline) (h : a.advance = .ok b) (n : Nat) :
    skipNewlines (n + 1) a = skipNewlines n b := by
  rw [skipNewlines, bind_run_ok (accept_run_ok hk h), if_pos rfl]

theorem moreStatements_run_no {e : Parser Node} (h : a.current.kind ≠ .newline)
    (n : Nat) : moreStatements e (n + 1) a = .ok ([], a) := by
  rw [moreStatements, bind_run_ok (at?_run _ _), if_neg (mt beq_iff_eq.1 h), pure_run]

theorem moreStatements_run_newline (e : Parser Node) (hk : a.current.kind = .newline) (n : Nat) :
    moreStatements e (n + 1) a =
      (do bounded skipNewlines; let first ← statement e; return first ++ (← moreStatements e n)) a := by
  rw [moreStatements, bind_run_ok (at?_run _ _), if_pos (beq_iff_eq.2 hk)]

/-- A number that has no unit. -/
theorem number_alone {t last : Token} {rest : List Token} (ht : t.kind ≠ .eof)
    (h : ¬ t.HasUnit (Ahead.before rest last).current) :
    number (Ahead.before (t :: rest) last) =
      .ok (.literal (.number t.value none) (some (t.span.upTo t.span)), Ahead.before rest last) := by
  rw [number, bind_run_ok (advance_run_ok (Ahead.advance_before ht)), bind_run_ok (current_run _)]
  cases hunit : LengthUnit.ofSymbol? (Ahead.before rest last).current.text with
  | none => rfl
  | some unit => exact congrFun (if_neg fun hc => h ⟨hc.1, by rw [hunit]; rfl, hc.2⟩) _

/-- A number with its unit. -/
theorem number_unit {t u last : Token} {rest : List Token} {unit : LengthUnit} (ht : t.kind ≠ .eof)
    (h : t.HasUnit u) (hunit : LengthUnit.ofSymbol? u.text = some unit) :
    number (Ahead.before (t :: u :: rest) last) =
      .ok (.literal (.number t.value (some unit)) (some (t.span.upTo u.span)),
        Ahead.before rest last) := by
  have hadvance : (Ahead.before (u :: rest) last).advance = .ok (Ahead.before rest last) :=
    Ahead.advance_before (by rw [h.1]; decide)
  rw [number, bind_run_ok (advance_run_ok (Ahead.advance_before ht)), bind_run_ok (current_run _)]
  rw [Ahead.current_before, Ahead.current_before, hunit]
  refine (congrFun (if_pos ⟨h.1, h.2.2⟩) _).trans ?_
  rw [bind_run_ok (advance_run_ok hadvance), pure_run]

/-- Parameters are taken from the arguments, and no tokens are. -/
theorem eq_of_parameters {function : String} {span : Option Span} {params ps : List Identifier}
    {args : List Node} (h : parameters function span params args a = .ok (ps, b)) : b = a := by
  induction args generalizing params with
  | nil =>
    cases h
    rfl
  | cons arg rest ih =>
    unfold parameters at h
    cases hname : arg.identifier? with
    | none =>
      rw [hname] at h
      cases h
    | some p =>
      rw [hname] at h
      dsimp only at h
      split at h
      · cases h
      · exact ih h

/-- Where no assignment starts, a statement is an expression or nothing. -/
theorem statement_of_expr {e : Parser Node} (h : a.current.kind = .identifier →
      ∃ t, a.following = .ok t ∧ (assignment? t.kind).isSome = false) :
    statement e a = (e >>= fun node => pure (if node.isEmpty then [] else [node])) a := by
  rw [statement, bind_run_ok (at?_run _ _)]
  by_cases hk : a.current.kind = .identifier
  · obtain ⟨t, ht, hno⟩ := h hk
    have hf : following a = .ok (t, a) := by rw [following_run, ht]; rfl
    rw [if_pos (beq_iff_eq.2 hk), bind_run_ok hf, pure_bind, hno]
    rfl
  · rw [if_neg (mt beq_iff_eq.1 hk)]
    rfl

theorem statement_of_assignment {e : Parser Node} {t : Token} (hk : a.current.kind = .identifier)
    (ht : a.following = .ok t) (hs : (assignment? t.kind).isSome = true) :
    statement e a = bounded (assignments e) a := by
  have hf : following a = .ok (t, a) := by rw [following_run, ht]; rfl
  rw [statement, bind_run_ok (at?_run _ _), if_pos (beq_iff_eq.2 hk), bind_run_ok hf, pure_bind, hs]
  rfl

theorem assignments_run_last {e : Parser Node} {node : Node} (h : assignment e a = .ok (node, b))
    (hb : b.current.kind ≠ .comma) (n : Nat) : assignments e (n + 1) a = .ok ([node], b) := by
  rw [assignments, bind_run_ok h, bind_run_ok (accept_run_no hb)]
  rfl

theorem assignments_run_more {e : Parser Node} {node : Node} {nodes : List Node} {c d : Ahead} {n : Nat}
    (h : assignment e a = .ok (node, b))
    (hb : b.current.kind = .comma) (hc : b.advance = .ok c) (hmore : assignments e n c = .ok (nodes, d)) :
    assignments e (n + 1) a = .ok (node :: nodes, d) := by
  rw [assignments, bind_run_ok h, bind_run_ok (accept_run_ok hb hc), if_pos rfl, bind_run_ok hmore]
  rfl

/-! ### Matrices -/

section Matrices

variable {element : Parser Node} {c d : Ahead} {e : Node} {es row : List Node} {rows : List (List Node)}
  {x : Bool}

theorem matrixRow_run_last (h : element a = .ok (e, b)) (he : e.isEmpty = false)
    (hb : b.current.kind = .semicolon ∨ b.current.kind = .rbracket) (n : Nat) :
    matrixRow element (n + 1) a = .ok ([e], b) := by
  rw [matrixRow, bind_run_ok h, if_neg (by rw [he]; simp), bind_run_ok (current_run b), if_pos hb, pure_run]

theorem matrixRow_run_more (h : element a = .ok (e, b)) (he : e.isEmpty = false)
    (hb : ¬ (b.current.kind = .semicolon ∨ b.current.kind = .rbracket))
    (hcomma : accept .comma b = .ok (x, c)) {n : Nat} (hmore : matrixRow element n c = .ok (es, d)) :
    matrixRow element (n + 1) a = .ok (e :: es, d) := by
  rw [matrixRow, bind_run_ok h, if_neg (by rw [he]; simp), bind_run_ok (current_run b), if_neg hb,
    bind_run_ok hcomma, bind_run_ok hmore, pure_run]

theorem matrixRows_run_end (h : a.current.kind = .rbracket) (n : Nat) :
    matrixRows element (n + 1) a = .ok ([], a) := by
  rw [matrixRows, bind_run_ok (at?_run _ a), if_pos (beq_iff_eq.2 h), pure_run]

theorem matrixRows_run_more (h : a.current.kind ≠ .rbracket)
    (hrow : bounded (matrixRow element) a = .ok (row, b)) (hsemicolon : accept .semicolon b = .ok (x, c))
    {n : Nat} (hmore : matrixRows element n c = .ok (rows, d)) :
    matrixRows element (n + 1) a = .ok (row :: rows, d) := by
  rw [matrixRows, bind_run_ok (at?_run _ a), if_neg (mt beq_iff_eq.1 h), bind_run_ok hrow,
    bind_run_ok hsemicolon, bind_run_ok hmore, pure_run]

theorem unevenRow?_eq_none {width index : Nat} (h : ∀ row ∈ rows, row.length = width) :
    unevenRow? width index rows = none := by
  induction rows generalizing index with
  | nil => rfl
  | cons row rows ih =>
    rw [unevenRow?, if_pos (h row List.mem_cons_self)]
    exact ih fun r hr => h r (List.mem_cons_of_mem row hr)

/-- Rows that correspond to rows of one length are of this length. -/
theorem length_of_map_eq {γ : Type} {f : α → γ} {g : β → γ} {xss : List (List α)} {yss : List (List β)}
    (h : xss.map (List.map f) = yss.map (List.map g)) {width : Nat}
    (hwidth : ∀ ys ∈ yss, ys.length = width) : ∀ xs ∈ xss, xs.length = width := by
  intro xs hxs
  have hmem : xs.map f ∈ yss.map (List.map g) := h ▸ List.mem_map_of_mem hxs
  obtain ⟨ys, hys, heq⟩ := List.mem_map.1 hmem
  rw [← hwidth ys hys, ← List.length_map (f := g), heq, List.length_map]

/-- Rows of one length between brackets. -/
theorem matrix_run_ok {t u last : Token} {ts us : List Token} (ht : t.kind = .lbracket)
    (hrun : bounded (matrixRows element) (Ahead.before ts last) = .ok (rows, Ahead.before (u :: us) last))
    (hu : u.kind = .rbracket) (hrows : rows ≠ []) {width : Nat}
    (hwidth : ∀ row ∈ rows, row.length = width) :
    matrix element (Ahead.before (t :: ts) last) =
      .ok (.matrix rows (some (t.span.upTo u.span)), Ahead.before us last) := by
  rw [matrix, bind_run_ok (expect_run_ok ht (Ahead.advance_before (by rw [ht]; decide))), bind_run_ok hrun,
    bind_run_ok (expect_run_ok hu (Ahead.advance_before (by rw [hu]; decide)))]
  cases rows with
  | nil => exact absurd rfl hrows
  | cons row rows =>
    obtain ⟨hrow, hrest⟩ := List.forall_mem_cons.1 hwidth
    simp only [unevenRow?_eq_none (hrow ▸ hrest)]
    rfl

end Matrices

/-! ## Moving -/

/-- A run that gives a result stops at a position that taking tokens leads to. -/
def Moves (p : Parser α) : Prop :=
  ∀ a x b, p a = .ok (x, b) → a.Reaches b

namespace Moves

theorem bind {p : Parser α} {f : α → Parser β} (hp : Moves p) (hf : ∀ x, Moves (f x)) :
    Moves (p >>= f) := by
  intro a y c h
  obtain ⟨x, b, hx, hy⟩ := bind_eq_ok h
  exact (hp a x b hx).trans (hf x b y c hy)

theorem pure (x : α) : Moves (Pure.pure x : Parser α) := by
  intro a y b h
  cases h
  exact .refl a

theorem ite {c : Prop} [Decidable c] {p q : Parser α} (hp : Moves p) (hq : Moves q) :
    Moves (if c then p else q) := by
  split
  · exact hp
  · exact hq

theorem current : Moves current := by
  intro a t b h
  cases h
  exact .refl a

theorem at? (k : Token.Kind) : Moves (at? k) :=
  current.bind fun _ => pure _

theorem advance : Moves advance := by
  intro a t b h
  exact .single (advance_eq_ok h).2

theorem following : Moves following := by
  intro a t b h
  rw [following_run] at h
  cases hf : a.following with
  | error e => rw [hf] at h; cases h
  | ok u =>
    rw [hf] at h
    cases h
    exact .refl a

theorem refuse (fault : SyntaxFault) (span : Option Span) : Moves (refuse fault span : Parser α) := by
  intro a x b h
  cases h

theorem refuseHere (fault : Token → SyntaxFault) : Moves (refuseHere fault : Parser α) :=
  current.bind fun _ => refuse _ _

theorem tooNested : Moves (tooNested : Parser α) :=
  refuseHere _

theorem expect (k : Token.Kind) : Moves (expect k) :=
  (at? k).bind fun _ => advance.ite (refuseHere _)

theorem require (node : Node) : Moves (require node) :=
  (refuseHere _).ite (pure _)

theorem bounded {loop : Nat → Parser α} (h : ∀ n, Moves (loop n)) : Moves (bounded loop) := by
  intro a x b hr
  exact h a.size a x b hr

/-- Moving does not depend on the position. -/
theorem uniform : Uniform fun _ p _ => Moves p where
  pure := pure
  bind hp hf := hp.bind hf
  current _ hf := current.bind hf
  advance _ hf := advance.bind hf
  following _ hf := following.bind hf
  refuse := refuse
  refuseHere := refuseHere
  tooNested _ := tooNested
  operator spacing bound hp hf := current.bind fun t => by
    split
    · exact hp
    · exact hf _
  sized h := bounded h

/-! ## The grammar -/

variable {factor expr : Parser Node}

theorem climb (hf : Moves factor) (spacing : Spacing) (n bound : Nat) (left : Node) :
    Moves (climb factor spacing n bound left) :=
  @Uniform.climb _ n n uniform factor factor hf spacing (Nat.le_refl n) bound left

theorem binary (hf : Moves factor) (spacing : Spacing) (bound : Nat) :
    Moves (binary factor spacing bound) :=
  hf.bind fun left => bounded fun n => hf.climb spacing n bound left

theorem number : Moves number :=
  uniform.number

theorem skipNewlines (n : Nat) : Moves (skipNewlines n) :=
  uniform.skipNewlines (Nat.le_refl n)

theorem statement (he : Moves expr) : Moves (statement expr) :=
  @Uniform.statement _ uniform expr expr he

/-- However deep the nesting, each parser of the grammar moves. -/
theorem grammar (n : Nat) :
    (∀ s, Moves (Parser.expr n s)) ∧ Moves (Parser.factor n) ∧ Moves (Parser.statements n) :=
  uniform.grammar (Nat.le_refl n)

theorem program : Moves Parser.program :=
  uniform.program

end Moves

end Parser

theorem toOption_any_iff {α ε : Type} {r : Except ε α} {p : α → Bool} :
    r.toOption.any p = true ↔ ∃ a, r = .ok a ∧ p a = true := by
  cases r with
  | ok a => simp [Except.toOption]
  | error e => simp [Except.toOption]

namespace Node

/-- A text is accepted if its tokens are a whole program. -/
theorem parse_eq_ok_iff {file source : String} {program : Node} :
    parse file source = .ok program ↔
      ∃ a b, Ahead.start (TokenStream.ofChars file source.toList) = .ok a ∧
        Parser.program a = .ok (program, b) := by
  unfold parse ofTokens
  constructor
  · intro h
    cases ha : Ahead.start (TokenStream.ofChars file source.toList) with
    | error e =>
      rw [ha] at h
      cases h
    | ok a =>
      rw [ha] at h
      change (Parser.program a >>= fun r => pure r.1) = .ok program at h
      cases hr : Parser.program a with
      | error e =>
        rw [hr] at h
        cases h
      | ok r =>
        rw [hr] at h
        cases h
        exact ⟨a, r.2, rfl, hr⟩
  · rintro ⟨a, b, ha, hb⟩
    rw [ha]
    show (Parser.program a >>= _) = _
    rw [hb]
    rfl

theorem exists_parse_of_toBool {file source : String}
    (h : (parse file source).toBool = true) : ∃ program, parse file source = .ok program := by
  cases hp : parse file source with
  | ok program => exact ⟨program, rfl⟩
  | error e =>
    rw [hp] at h
    cases h

end Node

end Reckon
