import Reckon.Proofs.Printing.Operand

/-!
# Reading printed lines and definitions back

A line is read back as one statement (`Line`).  Lines with a newline behind each of them are read back
in order, as a whole program before the end of input and as the block of a definition before its
closing brace.

That an expression is not taken for an assignment needs no look at how it is printed: if a name and an
assignment sign came first, reading the expression would stop behind the name, and it does not.
-/

namespace Reckon.Parser

open Ahead (before)

variable {ps : List Chunk} {node : Node}

/-- Before a newline, the chunks are read as one statement, which is `node` up to spans. -/
def Line (ps : List Chunk) (node : Node) : Prop :=
  ∀ (n : Nat) (rest : List Token) ⦃ts last⦄, Reads ps ts → last.kind = .eof →
    (before rest last).current.kind = .newline → 2 * ts.length + 1 ≤ n →
    (before (ts ++ rest) last).current.kind ≠ .newline ∧
    ∃ x, x.bare = node ∧
      statement (expr n .ignored) (before (ts ++ rest) last) = .ok ([x], before rest last)

/-! ## One line -/

/-- What an assignment sign is not. -/
theorem not_of_assignment? {k : Token.Kind} (h : (assignment? k).isSome = true) :
    k ≠ .lparen ∧ k ≠ .question ∧ k ≠ .newline ∧ BinaryOp.ofKind? k = none := by
  revert h
  cases k <;> decide

/-- An expression on a line of its own. -/
theorem Whole.line (h : Whole ps node) : Line ps node := by
  intro n rest ts last hr hl hend hn
  have hcl : (before rest last).current.kind.closes = true := by rw [hend]; rfl
  have hopen := h.opens hr hl hcl
  obtain ⟨x, hx, hxe, hrun⟩ := h n .ignored rest hr hl hcl hn
  refine ⟨fun hk => ?_, x, hx, ?_⟩
  · rw [hk] at hopen
    cases hopen
  · rw [statement_of_expr, bind_run_ok hrun, hxe]
    · rfl
    · intro hk
      cases ts with
      | nil =>
        rw [List.nil_append, hend] at hk
        cases hk
      | cons t ts =>
        refine ⟨_, Ahead.following_before t (ts ++ rest) last, ?_⟩
        cases hs : (assignment? (before (ts ++ rest) last).current.kind).isSome with
        | false => rfl
        | true =>
          -- Reading would stop at the assignment sign, which is no newline.
          obtain ⟨hparen, hq, hnl, hop⟩ := not_of_assignment? hs
          obtain ⟨m, rfl⟩ : ∃ m, n = m + 2 := by
            rw [List.length_cons] at hn
            exact ⟨n - 2, by omega⟩
          have hvar := expr_of_factor .ignored (factor_name (t := t) hk hparen m) hop hq
          rw [List.cons_append, hvar, Except.ok.injEq, Prod.mk.injEq] at hrun
          rw [hrun.2] at hnl
          exact absurd hend hnl

theorem assignment_run_plain {t u last : Token} {ts : List Token} {e : Parser Node} {b : Ahead}
    (ht : t.kind = .identifier) (hu : u.kind = .assign) (he : e (before ts last) = .ok (node, b))
    (hsome : node.isEmpty = false) :
    assignment e (before (t :: u :: ts) last) =
      .ok (.assign ⟨t.text, some t.span⟩ node (Span.join (some t.span) node.span), b) := by
  rw [assignment, bind_run_ok (identifier_run ht _ _), bind_run_ok (current_run _), Ahead.current_before,
    hu]
  show (expect .assign >>= _) (before (u :: ts) last) = _
  rw [bind_run_ok (expect_run_ok hu (Ahead.advance_before (by rw [hu]; decide))), bind_run_ok he,
    bind_run_ok (require_run_ok hsome b)]
  rfl

/-- An assignment on a line of its own. -/
theorem Whole.assignLine (x : Name) (h : Whole ps node) :
    Line (Chunk.ofName x :: (Chunk.spaced .assign ++ ps)) (.assign ⟨x.text, none⟩ node none) := by
  intro n rest ts last hr hl hend hn
  have hcl : (before rest last).current.kind.closes = true := by rw [hend]; rfl
  obtain ⟨t, us, rfl, hk, -, ht, hu⟩ := Reads.cons hr
  obtain ⟨u, vs, rfl, huk, -, -, hv⟩ := Reads.spaced hu
  simp only [List.length_cons] at hn
  obtain ⟨y, hy, hye, hrun⟩ := h n .ignored rest hv hl hcl (by omega)
  simp only [List.cons_append]
  refine ⟨by rw [Ahead.current_before, hk]; simp,
    .assign ⟨t.text, some t.span⟩ y (Span.join (some t.span) y.span), ?_, ?_⟩
  · rw [Node.bare, hy, ht]
    rfl
  · rw [statement_of_assignment hk (Ahead.following_before _ _ _)
      (by rw [Ahead.current_before, huk]; rfl)]
    exact assignments_run_last (assignment_run_plain hk huk hrun hye) (by rw [hend]; simp) _

/-! ## Many lines -/

/-- A single newline is passed over. -/
theorem skipNewlines_run_one {t last : Token} {ts : List Token} (ht : t.kind = .newline)
    (h : (before ts last).current.kind ≠ .newline) :
    bounded skipNewlines (before (t :: ts) last) = .ok ((), before ts last) := by
  have hte : t.kind ≠ .eof := by rw [ht]; simp
  rw [bounded_run]
  show skipNewlines (_ + 1 + 1) _ = _
  rw [skipNewlines, bind_run_ok (accept_run_ok ht (Ahead.advance_before hte)), if_pos rfl,
    skipNewlines_run_no h]

/-- Lines end before the end of input or a closing brace. -/
def EndsLines (a : Ahead) : Prop :=
  a.current.kind = .eof ∨ a.current.kind = .rbrace

theorem EndsLines.ne_newline {a : Ahead} (h : EndsLines a) : a.current.kind ≠ .newline := by
  rcases h with h | h <;> rw [h] <;> simp

/-- Where lines end, the last statement is empty. -/
theorem statement_ends {a : Ahead} (h : EndsLines a) {n : Nat} (hn : 2 ≤ n) :
    statement (expr n .ignored) a = .ok ([], a) := by
  have hcl : a.current.kind.closes = true := by rcases h with h | h <;> rw [h] <;> rfl
  obtain ⟨m, rfl⟩ : ∃ m, n = m + 2 := ⟨n - 2, by omega⟩
  rw [statement_of_expr, bind_run_ok (expr_closes hcl m _)]
  · rfl
  · intro hk
    rw [hk] at hcl
    cases hcl

section Lines

variable {ι : Type} {f : ι → List Chunk} {g : ι → Node} {ts rest : List Token} {last : Token}
  {n m : Nat}

/-- The chunks of some lines, each with a newline behind it. -/
def lineBlock (f : ι → List Chunk) (items : List ι) : List Chunk :=
  (items.map fun i => f i ++ [Chunk.sign .newline]).flatten

theorem lineBlock_cons (f : ι → List Chunk) (i : ι) (items : List ι) :
    lineBlock f (i :: items) = f i ++ (Chunk.sign .newline :: lineBlock f items) := by
  unfold lineBlock
  rw [List.map_cons, List.flatten_cons, List.append_assoc]
  rfl

/-- The first line and the newline behind it. -/
theorem Reads.lineBlock_cons {i : ι} {items : List ι} (h : Reads (lineBlock f (i :: items)) ts)
    (rest : List Token) (last : Token) :
    ∃ us vs, ts = us ++ vs ∧ Reads (f i) us ∧ Reads (Chunk.sign .newline :: lineBlock f items) vs ∧
      (before (vs ++ rest) last).current.kind = .newline := by
  rw [Parser.lineBlock_cons] at h
  obtain ⟨us, vs, rfl, hu, hv⟩ := h.append
  obtain ⟨t, ws, rfl, hk, -⟩ := Reads.cons hv
  exact ⟨us, t :: ws, rfl, hu, hv, hk⟩

theorem lineBlock_ne_newline {items : List ι} (h : ∀ i ∈ items, Line (f i) (g i))
    (hr : Reads (lineBlock f items) ts) (hl : last.kind = .eof) (hend : EndsLines (before rest last)) :
    (before (ts ++ rest) last).current.kind ≠ .newline := by
  cases items with
  | nil =>
    cases hr
    exact hend.ne_newline
  | cons i items =>
    obtain ⟨us, vs, rfl, hu, -, hk⟩ := Reads.lineBlock_cons hr rest last
    rw [List.append_assoc]
    exact (h i List.mem_cons_self _ _ hu hl hk (Nat.le_refl _)).1

/-- Lines behind a newline. -/
theorem moreStatements_lineBlock {items : List ι} (h : ∀ i ∈ items, Line (f i) (g i))
    (hr : Reads (Chunk.sign .newline :: lineBlock f items) ts) (hl : last.kind = .eof)
    (hend : EndsLines (before rest last)) (hn : 2 * ts.length + 1 ≤ n) (hm : ts.length < m) :
    ∃ xs, xs.map Node.bare = items.map g ∧
      moreStatements (expr n .ignored) m (before (ts ++ rest) last) = .ok (xs, before rest last) := by
  induction items generalizing ts m with
  | nil =>
    obtain ⟨t, us, rfl, hk, -, -, hu⟩ := Reads.cons hr
    cases hu
    obtain ⟨m, rfl⟩ : ∃ k, m = k + 2 := ⟨m - 2, by simp at hm; omega⟩
    refine ⟨[], rfl, ?_⟩
    rw [List.cons_append, List.nil_append, moreStatements, bind_run_ok (at?_run _ _),
      Ahead.current_before, if_pos (beq_iff_eq.2 hk), bind_run_ok (skipNewlines_run_one hk hend.ne_newline),
      bind_run_ok (statement_ends hend (by simp at hn; omega)),
      bind_run_ok (moreStatements_run_no hend.ne_newline m)]
    rfl
  | cons i items ih =>
    obtain ⟨t, ws, rfl, hk, -, -, hw⟩ := Reads.cons hr
    have hfirst := lineBlock_ne_newline h hw hl hend
    obtain ⟨us, vs, rfl, hu, hv, hnl⟩ := Reads.lineBlock_cons hw rest last
    simp only [List.length_cons, List.length_append] at hn hm
    cases m with
    | zero => omega
    | succ m =>
      obtain ⟨-, x, hx, hrun⟩ := h i List.mem_cons_self n _ hu hl hnl (by omega)
      obtain ⟨xs, hxs, hrest⟩ := ih (fun j hj => h j (List.mem_cons_of_mem i hj)) (m := m) hv
        (by omega) (by omega)
      refine ⟨x :: xs, by rw [List.map_cons, List.map_cons, hx, hxs], ?_⟩
      rw [List.append_assoc] at hfirst
      rw [List.cons_append, List.append_assoc, moreStatements, bind_run_ok (at?_run _ _),
        Ahead.current_before, if_pos (beq_iff_eq.2 hk), bind_run_ok (skipNewlines_run_one hk hfirst), bind_run_ok hrun,
        bind_run_ok hrest]
      rfl

/-- Lines from the first one on. -/
theorem statements_lineBlock {items : List ι} (h : ∀ i ∈ items, Line (f i) (g i))
    {a : Ahead} (hskip : bounded skipNewlines a = .ok ((), before (ts ++ rest) last))
    (hr : Reads (lineBlock f items) ts) (hl : last.kind = .eof) (hend : EndsLines (before rest last))
    (hn : 2 * ts.length + 2 ≤ n) :
    ∃ xs, xs.map Node.bare = items.map g ∧
      statements (n + 1) a = .ok (xs, before rest last) := by
  cases items with
  | nil =>
    cases hr
    refine ⟨[], rfl, ?_⟩
    rw [statements, statementsWith, bind_run_ok hskip, List.nil_append,
      bind_run_ok (statement_ends hend (by simp at hn; omega)),
      bind_run_ok (bounded_run _ _ |>.trans (moreStatements_run_no hend.ne_newline _))]
    rfl
  | cons i items =>
    obtain ⟨us, vs, rfl, hu, hv, hnl⟩ := Reads.lineBlock_cons hr rest last
    rw [List.length_append] at hn
    obtain ⟨-, x, hx, hrun⟩ := h i List.mem_cons_self n _ hu hl hnl (by omega)
    obtain ⟨xs, hxs, hrest⟩ := moreStatements_lineBlock (n := n)
      (fun j hj => h j (List.mem_cons_of_mem i hj)) hv hl hend (by omega)
      (Nat.lt_of_le_of_lt (by simp) (Ahead.length_lt_size (vs ++ rest) last))
    refine ⟨x :: xs, by rw [List.map_cons, List.map_cons, hx, hxs], ?_⟩
    rw [statements, statementsWith, bind_run_ok hskip, List.append_assoc, bind_run_ok hrun,
      bind_run_ok (bounded_run _ _ |>.trans hrest)]
    rfl

end Lines

/-! ## Definitions -/

/-- Arguments that are distinct names are the parameters of a definition. -/
theorem parameters_names (function : String) (span : Option Span) (acc : List Identifier)
    {names : List Name} {args : List Node}
    (hargs : args.map Node.bare = names.map fun x => .var x.text none)
    (hd : (acc.map Identifier.name ++ names.map Name.text).Nodup) (a : Ahead) :
    ∃ ps, ps.map Identifier.bare = acc.map Identifier.bare ++ names.map (fun x => ⟨x.text, none⟩) ∧
      parameters function span acc args a = .ok (ps, a) := by
  induction names generalizing acc args with
  | nil =>
    rw [List.map_nil, List.map_eq_nil_iff] at hargs
    subst hargs
    exact ⟨acc, by rw [List.map_nil, List.append_nil], rfl⟩
  | cons x names ih =>
    cases args with
    | nil => cases hargs
    | cons arg args =>
      rw [List.map_cons, List.map_cons, List.cons.injEq] at hargs
      obtain ⟨s, rfl⟩ := Node.eq_var_of_bare hargs.1
      have hnew : (acc.any fun q => q.name == x.text) = false := by
        rw [List.any_eq_false]
        intro q hq heq
        exact (List.nodup_append.1 hd).2.2 q.name (List.mem_map_of_mem hq) x.text
          List.mem_cons_self (beq_iff_eq.1 heq)
      have hd' : ((acc ++ [Identifier.mk x.text s]).map Identifier.name ++ names.map Name.text).Nodup := by
        rw [List.map_append, List.append_assoc]
        exact hd
      obtain ⟨ps, hps, hrun⟩ := ih (acc ++ [Identifier.mk x.text s]) hargs.2 hd'
      refine ⟨ps, ?_, ?_⟩
      · rw [hps, List.map_append, List.append_assoc]
        rfl
      · rw [parameters]
        simp only [Node.identifier?, hnew, Bool.false_eq_true, if_false]
        exact hrun

/-- A definition is an operand, whatever follows its closing brace. -/
theorem Operand.define {ι : Type} {f : ι → List Chunk} {g : ι → Node} (x : Name) {params : List Name}
    (hd : (params.map Name.text).Nodup) (items : List ι) (h : ∀ i ∈ items, Line (f i) (g i)) :
    Operand ((Chunk.ofName x :: Chunk.parens (Chunk.listed .comma (params.map fun p => [Chunk.ofName p])))
        ++ (Chunk.spaced .assign ++ (Chunk.sign .lbrace ::
          ((Chunk.sign .newline :: lineBlock f items) ++ [Chunk.sign .rbrace]))))
      (.define x.text (params.map fun p => ⟨p.text, none⟩) (items.map g) none none) := by
  intro n rest ts last hr hl hres hn
  obtain ⟨cts, us, rfl, hcts, hu⟩ := Reads.append hr
  obtain ⟨t, vs, rfl, htk, hte, -, hv⟩ := Reads.spaced hu
  obtain ⟨b, ws, d, rfl, hbk, hbe, hdk, hde, hw⟩ := Reads.between hv
  obtain ⟨nl, lts, rfl, hnk, -, -, hlts⟩ := Reads.cons hw
  simp only [List.length_cons, List.length_append, List.length_nil] at hn
  obtain ⟨n, rfl⟩ : ∃ k, n = k + 2 := ⟨n - 2, by omega⟩
  have hparams : ∀ p ∈ params, Whole [Chunk.ofName p] (.var p.text none) :=
    fun p _ => ((Operand.var p).chain 0).whole (Nat.zero_le _)
  obtain ⟨hfactor, args, span, hargs, hcall⟩ := call_listed x hparams (n + 1)
    (t :: b :: nl :: (lts ++ d :: rest)) hcts hl (by omega)
  obtain ⟨ids, hids, hprm⟩ := parameters_names x.text span [] hargs hd
    (before (b :: nl :: (lts ++ d :: rest)) last)
  -- The newline behind the opening brace is passed over before the lines.
  have hends : EndsLines (before (d :: rest) last) := .inr hdk
  have hskip : bounded skipNewlines (before (nl :: (lts ++ d :: rest)) last) =
      .ok ((), before (lts ++ d :: rest) last) :=
    skipNewlines_run_one hnk (lineBlock_ne_newline h hlts hl hends)
  obtain ⟨xs, hxs, hrun⟩ := statements_lineBlock (n := n) h hskip hlts hl hends (by omega)
  have hbody : body (expr (n + 1) .ignored) (statements (n + 1))
      (before (b :: nl :: (lts ++ d :: rest)) last) =
        .ok ((xs, some (b.span.upTo d.span)), before rest last) := by
    rw [body, bind_run_ok (at?_run _ _), Ahead.current_before, if_pos (beq_iff_eq.2 hbk),
      bind_run_ok (advance_run_ok (Ahead.advance_before hbe)), bind_run_ok hrun,
      bind_run_ok (expect_run_ok hdk (Ahead.advance_before hde))]
    rfl
  refine ⟨.define x.text ids xs (some (b.span.upTo d.span)) (Span.join span (some (b.span.upTo d.span))),
    by rw [Node.bare, Node.bareList_eq_map, hxs, hids]; rfl, rfl, ?_⟩
  simp only [List.append_assoc, List.cons_append, List.nil_append]
  rw [hfactor, callOrDefinition, bind_run_ok hcall]
  simp only
  rw [bind_run_ok (current_run _), Ahead.current_before, if_pos (Or.inl htk),
    bind_run_ok (advance_run_ok (Ahead.advance_before (htk ▸ hte))), bind_run_ok hprm,
    bind_run_ok hbody]
  rfl

end Reckon.Parser
