import Reckon.Proofs.Parsing.Climbing
import Reckon.Proofs.Printing.Reading

/-!
# Reading printed expressions back

What is printed for a phrase is read back in one of three ways, depending on where it stands: as an
operand (`Operand`), as operands joined by operators of a certain rank at most (`Chain`), or as a whole
expression (`Whole`).  Each is a statement about every position at which the tokens of the chunks come
next, whatever stands behind them as long as it does not go on with what was printed.

A chain is not read by one call: a left operand is read, and the loop that reads the operator behind
it is already running.  So a chain says that the loop comes to stand behind the chunks with their tree
as its left operand, and may go on from there.

The bounds on the nesting say that the number of tokens is enough.
-/

namespace Reckon

/-! ## What may follow -/

namespace Token.Kind

/-- An operand may go on with a token of this kind. -/
def resumes : Kind → Bool
  | identifier | lparen | assign | fatArrow => true
  | _ => false

/-- An expression ends before a token of this kind, and none starts there. -/
def closes : Kind → Bool
  | rparen | rbracket | rbrace | semicolon | comma | colon | newline | eof => true
  | _ => false

variable {k : Kind}

theorem resumes_of_closes (h : k.closes = true) : k.resumes = false := by
  cases k <;> first | rfl | cases h

theorem ofKind?_of_closes (h : k.closes = true) : BinaryOp.ofKind? k = none := by
  cases k <;> first | rfl | cases h

theorem ne_question_of_closes (h : k.closes = true) : k ≠ .question := by
  rintro rfl
  cases h

theorem not_beq_of_closes {k' : Kind} (h : k.closes = false) (h' : k'.closes = true) :
    ¬ (k == k') = true := by
  intro hk
  rw [beq_iff_eq.1 hk, h'] at h
  cases h

theorem resumes_binary (op : BinaryOp) : op.kind.resumes = false := by
  cases op <;> rfl

end Token.Kind

namespace Parser

open Ahead (before)

/-- Where nothing goes on with it, the chunks are read as an operand, which is `node` up to spans. -/
def Operand (ps : List Chunk) (node : Node) : Prop :=
  ∀ (n : Nat) (rest : List Token) ⦃ts last⦄, Reads ps ts → last.kind = .eof →
    (before rest last).current.kind.resumes = false → 2 * ts.length ≤ n →
    ∃ x, x.bare = node ∧ x.isEmpty = false ∧
      factor n (before (ts ++ rest) last) = .ok (x, before rest last)

/-- Before an operator that binds as loosely as `rank` says or anything else, the loop for operators
comes to stand behind the chunks with `node` as its left operand, up to spans. -/
def Chain (rank : Nat) (ps : List Chunk) (node : Node) : Prop :=
  ∀ (n : Nat) (spacing : Spacing) (bound : Nat) (rest : List Token) ⦃ts last⦄, Reads ps ts →
    last.kind = .eof →
    (before rest last).current.kind.resumes = false →
    (∀ op, BinaryOp.ofKind? (before rest last).current.kind = some op → rank ≤ op.level + 1) →
    2 * ts.length ≤ n → rank ≤ bound →
    ∃ x, x.bare = node ∧ x.isEmpty = false ∧
      (factor n >>= climbing (factor n) spacing bound) (before (ts ++ rest) last) =
        climbing (factor n) spacing bound x (before rest last)

/-- Where an expression may end, the chunks are read as one, which is `node` up to spans. -/
def Whole (ps : List Chunk) (node : Node) : Prop :=
  ∀ (n : Nat) (spacing : Spacing) (rest : List Token) ⦃ts last⦄, Reads ps ts → last.kind = .eof →
    (before rest last).current.kind.closes = true → 2 * ts.length + 1 ≤ n →
    ∃ x, x.bare = node ∧ x.isEmpty = false ∧
      expr n spacing (before (ts ++ rest) last) = .ok (x, before rest last)

/-! ## From operands to whole expressions -/

section Joining

variable {ps qs : List Chunk} {node left right : Node} {rank : Nat}

theorem Operand.chain (h : Operand ps node) (rank : Nat) : Chain rank ps node := by
  intro n spacing bound rest ts last hr hl hres _ hn _
  obtain ⟨x, hx, hne, hrun⟩ := h n rest hr hl hres hn
  exact ⟨x, hx, hne, bind_run_ok hrun⟩

theorem Chain.mono {rank' : Nat} (h : Chain rank ps node) (hle : rank ≤ rank') :
    Chain rank' ps node := by
  intro n spacing bound rest ts last hr hl hres hop hn hb
  exact h n spacing bound rest hr hl hres (fun op ho => Nat.le_trans hle (hop op ho)) hn (Nat.le_trans hle hb)

/-- An operator with a blank behind it joins, also between brackets. -/
theorem operator?_spaced {spacing : Spacing} {bound : Nat} {t : Token} {op : BinaryOp}
    (hk : t.kind = op.kind) (hblank : t.blankAfter = true) (hb : op.level < bound) :
    operator? spacing bound t = some op := by
  have hj : t.joinsNeighbours = true := by rw [Token.joinsNeighbours, hblank]; rfl
  unfold operator?
  rw [BinaryOp.ofKind?_eq_some_iff.2 hk, hj]
  simp [hb]

/-- A spaced sign is read as its token, which has a blank behind it. -/
theorem Reads.spaced {k : Token.Kind} {ts : List Token} (h : Reads (Chunk.spaced k ++ ps) ts) :
    ∃ t us, ts = t :: us ∧ t.kind = k ∧ k ≠ .eof ∧ t.blankAfter = true ∧ Reads ps us := by
  cases h with
  | blank h =>
    cases h with
    | lexeme hk _ hne ha _ h =>
      cases h with
      | blank h => exact ⟨_, _, rfl, hk, hne, ha rfl, h⟩

/-- The left operand may bind as loosely as the operator, the right one has to bind more tightly. -/
theorem Chain.binary {op : BinaryOp} (hleft : Chain (op.level + 1) ps left)
    (hright : Chain op.level qs right) :
    Chain (op.level + 1) (ps ++ (Chunk.spaced op.kind ++ qs)) (.binary left op right none) := by
  intro n spacing bound rest ts last hr hl hres hop hn hb
  obtain ⟨us, vs, rfl, hu, hv⟩ := hr.append
  obtain ⟨t, ws, rfl, hk, hne, hblank, hw⟩ := Reads.spaced hv
  simp only [List.length_append, List.length_cons] at hn
  have htop : ∀ op', BinaryOp.ofKind? t.kind = some op' → op.level + 1 ≤ op'.level + 1 := by
    intro op' ho
    rw [hk, BinaryOp.ofKind?_eq_some_iff.2 rfl] at ho
    cases ho
    exact Nat.le_refl _
  obtain ⟨x, hx, hxe, hxrun⟩ := hleft n spacing bound (t :: ws ++ rest) hu hl
    (by rw [show (before (t :: ws ++ rest) last).current.kind = op.kind from hk]
        exact Token.Kind.resumes_binary op) htop (by omega : 2 * us.length ≤ n) hb
  obtain ⟨y, hy, hye, hyrun⟩ := hright n spacing op.level rest hw hl hres
    (fun op' ho => Nat.le_of_succ_le (hop op' ho)) (by omega) (Nat.le_refl _)
  have hstop : operator? spacing op.level (before rest last).current = none :=
    operator?_eq_none fun op' ho => Nat.le_of_succ_le_succ (hop op' ho)
  have hadv : (before (t :: ws ++ rest) last).advance = .ok (before (ws ++ rest) last) :=
    Ahead.advance_before (hk ▸ hne)
  have htake : operator? spacing bound (before (t :: ws ++ rest) last).current = some op :=
    operator?_spaced hk hblank hb
  -- The loop stands before the operator, takes it, and comes to stand behind its right operand.
  refine ⟨.binary x op y (Span.join x.span y.span), by rw [Node.bare, hx, hy], rfl, ?_⟩
  rw [List.append_assoc, hxrun, climbing_some (Moves.grammar n).2.1 (Ahead.closed_before hl _) htake]
  refine bind_run_ok ?_
  unfold join
  rw [bind_run_ok (require_run_ok hxe _), bind_run_ok (advance_run_ok hadv),
    bind_run_ok (hyrun.trans (climbing_none hstop)), bind_run_ok (require_run_ok hye _), pure_run]

/-- Where an expression ends, the loop for operators does. -/
theorem binary_closes (h : Chain rank ps node) (hrank : rank ≤ BinaryOp.levels) (n : Nat)
    (spacing : Spacing) (rest : List Token) {ts : List Token} {last : Token} (hr : Reads ps ts)
    (hl : last.kind = .eof)
    (hres : (before rest last).current.kind.resumes = false)
    (hop : BinaryOp.ofKind? (before rest last).current.kind = none) (hn : 2 * ts.length ≤ n) :
    ∃ x, x.bare = node ∧ x.isEmpty = false ∧
      Parser.binary (factor n) spacing BinaryOp.levels (before (ts ++ rest) last) =
        .ok (x, before rest last) := by
  have hno : ∀ bound, ∀ op, BinaryOp.ofKind? (before rest last).current.kind = some op →
      bound ≤ op.level := by
    intro bound op ho
    rw [hop] at ho
    cases ho
  obtain ⟨x, hx, hxe, hrun⟩ := h n spacing BinaryOp.levels rest hr hl hres
    (fun op ho => Nat.le_succ_of_le (hno rank op ho)) hn hrank
  exact ⟨x, hx, hxe, hrun.trans (climbing_none (operator?_eq_none (hno _)))⟩

theorem Chain.whole (h : Chain rank ps node) (hrank : rank ≤ BinaryOp.levels) : Whole ps node := by
  intro n spacing rest ts last hr hl hcl hn
  cases n with
  | zero => omega
  | succ n =>
    obtain ⟨x, hx, hxe, hrun⟩ := binary_closes h hrank n spacing rest hr hl
      (Token.Kind.resumes_of_closes hcl) (Token.Kind.ofKind?_of_closes hcl) (by omega)
    refine ⟨x, hx, hxe, ?_⟩
    have hq : ¬ ((before rest last).current.kind == Token.Kind.question) = true := by
      rw [beq_iff_eq]
      exact Token.Kind.ne_question_of_closes hcl
    rw [expr, ternaryWith, bind_run_ok hrun, bind_run_ok (at?_run _ _), if_neg hq, pure_run]

theorem Whole.ternary {cs ys ns : List Chunk} {c y n : Node} (hc : Chain rank cs c)
    (hrank : rank ≤ BinaryOp.levels) (hy : Whole ys y) (hno : Whole ns n) :
    Whole (cs ++ (Chunk.spaced .question ++ (ys ++ (Chunk.spaced .colon ++ ns))))
      (.ternary c y n none) := by
  intro m spacing rest ts last hr hl hcl hm
  obtain ⟨cts, us, rfl, hcts, hu⟩ := hr.append
  obtain ⟨q, vs, rfl, hqk, hqe, -, hv⟩ := Reads.spaced hu
  obtain ⟨yts, ws, rfl, hyts, hw⟩ := hv.append
  obtain ⟨d, nts, rfl, hdk, hde, -, hnts⟩ := Reads.spaced hw
  simp only [List.length_append, List.length_cons] at hm
  cases m with
  | zero => omega
  | succ m =>
    obtain ⟨x₁, hx₁, hxe₁, hrun₁⟩ := binary_closes hc hrank m spacing
      (q :: (yts ++ d :: (nts ++ rest))) hcts hl (by simp [hqk, Token.Kind.resumes])
      (by simp [hqk, BinaryOp.ofKind?]) (by omega)
    obtain ⟨x₂, hx₂, hxe₂, hrun₂⟩ := hy m spacing (d :: (nts ++ rest))
      hyts hl (by simp [hdk, Token.Kind.closes]) (by omega)
    obtain ⟨x₃, hx₃, hxe₃, hrun₃⟩ := hno m spacing rest hnts hl hcl (by omega)
    have hadv₁ : (before (q :: (yts ++ d :: (nts ++ rest))) last).advance =
        .ok (before (yts ++ d :: (nts ++ rest)) last) := Ahead.advance_before (hqk ▸ hqe)
    have hadv₂ : (before (d :: (nts ++ rest)) last).advance = .ok (before (nts ++ rest) last) :=
      Ahead.advance_before (hdk ▸ hde)
    refine ⟨.ternary x₁ x₂ x₃ (Span.join x₁.span x₃.span), by rw [Node.bare, hx₁, hx₂, hx₃], rfl, ?_⟩
    simp only [List.append_assoc, List.cons_append]
    rw [expr, ternaryWith, bind_run_ok hrun₁, bind_run_ok (at?_run _ _), Ahead.current_before,
      if_pos (beq_iff_eq.2 hqk), bind_run_ok (require_run_ok hxe₁ _),
      bind_run_ok (advance_run_ok hadv₁), bind_run_ok hrun₂, bind_run_ok (require_run_ok hxe₂ _),
      bind_run_ok (expect_run_ok hdk hadv₂), bind_run_ok hrun₃, bind_run_ok (require_run_ok hxe₃ _),
      pure_run]

end Joining

/-! ## Where no expression starts -/

/-- Nothing is read where an expression ends. -/
theorem expr_closes {a : Ahead} (h : a.current.kind.closes = true) (n : Nat) (spacing : Spacing) :
    expr (n + 2) spacing a = .ok (.empty (some a.current.span), a) := by
  refine expr_of_factor spacing ?_ (Token.Kind.ofKind?_of_closes h) (Token.Kind.ne_question_of_closes h)
  rw [factor, factorWith, bind_run_ok (current_run _)]
  cases hk : a.current.kind <;> rw [hk] at h <;> first | rfl | cases h

/-- So a printed expression does not start with a token that ends one. -/
theorem Whole.opens {ps : List Chunk} {node : Node} (h : Whole ps node) {ts rest : List Token}
    {last : Token} (hr : Reads ps ts) (hl : last.kind = .eof)
    (hcl : (before rest last).current.kind.closes = true) :
    (before (ts ++ rest) last).current.kind.closes = false := by
  obtain ⟨x, -, hxe, hrun⟩ := h (2 * ts.length + 2) .ignored rest hr hl hcl (by omega)
  cases hk : (before (ts ++ rest) last).current.kind.closes with
  | false => rfl
  | true =>
    rw [expr_closes hk, Except.ok.injEq, Prod.mk.injEq] at hrun
    rw [← hrun.1] at hxe
    cases hxe

end Parser

end Reckon
