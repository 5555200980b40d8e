import Reckon.Proofs.Printing.Expression

/-!
# Reading printed operands back

Numbers, truth values, names, signs before operands and parentheses, calls and matrices.
-/

namespace Reckon

/-- The first lexeme is read as the first token. -/
theorem Reads.cons {k : Token.Kind} {cs : List Char} {ps : List Chunk} {ts : List Token}
    (h : Reads (.lexeme k cs :: ps) ts) :
    ∃ t us, ts = t :: us ∧ t.kind = k ∧ t.kind ≠ .eof ∧ t.text = String.ofList cs ∧ Reads ps us := by
  cases h with
  | lexeme hk ht hne _ _ h => exact ⟨_, _, rfl, hk, hk ▸ hne, ht, h⟩

/-- What stands between two signs. -/
theorem Reads.between {k k' : Token.Kind} {ps : List Chunk} {ts : List Token}
    (h : Reads (Chunk.sign k :: (ps ++ [Chunk.sign k'])) ts) :
    ∃ t us u, ts = t :: (us ++ [u]) ∧ t.kind = k ∧ t.kind ≠ .eof ∧ u.kind = k' ∧ u.kind ≠ .eof ∧
      Reads ps us := by
  obtain ⟨t, vs, rfl, hk, hne, -, hv⟩ := Reads.cons h
  obtain ⟨us, ws, rfl, hu, hw⟩ := hv.append
  obtain ⟨u, ws, rfl, huk, hune, -, hw⟩ := Reads.cons hw
  cases hw
  exact ⟨t, us, u, rfl, hk, hne, huk, hune, hu⟩

/-- The first item of a list, the separator behind it, and the other items. -/
theorem Reads.listed {k : Token.Kind} {p q : List Chunk} {items : List (List Chunk)}
    {ts : List Token} (h : Reads (Chunk.listed k (p :: q :: items)) ts) :
    ∃ us t ws, ts = us ++ t :: ws ∧ Reads p us ∧ t.kind = k ∧ t.kind ≠ .eof ∧
      Reads (Chunk.listed k (q :: items)) ws := by
  rw [Chunk.listed_cons_cons] at h
  obtain ⟨us, vs, rfl, hu, hv⟩ := h.append
  obtain ⟨t, ws, rfl, hk, hne, -, hw⟩ := Reads.cons hv
  cases hw with
  | blank hw => exact ⟨us, t, ws, rfl, hu, hk, hne, hw⟩

theorem LengthUnit.ofSymbol?_symbol (u : LengthUnit) : ofSymbol? u.symbol = some u := by
  cases u <;> decide

namespace Parser

open Ahead (before)

variable {ps qs : List Chunk} {node : Node}

/-! ## Single tokens -/

theorem factor_at (n : Nat) (t : Token) (ts : List Token) (last : Token) :
    factor (n + 1) (before (t :: ts) last) =
      factorWith (factor n) (expr n) (statements n) (before (t :: ts) last) := by
  rw [factor]

theorem Operand.number (extra : Place → Phrase → Bool) (n : Numeral) (unit : Option LengthUnit) :
    Operand ((Phrase.number n unit).chunks extra) (Phrase.number n unit).node := by
  intro m rest ts last hr hl hres hm
  have hvalue : ∀ t : Token, t.text = String.ofList n.chars → t.value = n.value := by
    intro t ht
    rw [Token.value, ht, String.toList_ofList]
    rfl
  cases unit with
  | none =>
    obtain ⟨t, us, rfl, hk, hne, ht, hu⟩ := Reads.cons hr
    cases hu
    cases m with
    | zero => simp at hm
    | succ m =>
      refine ⟨.literal (.number t.value none) (some (t.span.upTo t.span)), ?_, rfl, ?_⟩
      · rw [Node.bare, hvalue t ht]
        rfl
      · rw [List.cons_append, factor_at, factorWith, bind_run_ok (current_run _)]
        simp only [List.nil_append, Ahead.current_before, hk, UnaryOp.ofKind?]
        refine number_alone hne fun hunit => ?_
        rw [hunit.1] at hres
        cases hres
  | some u =>
    cases hr with
    | @lexeme _ _ _ t us hk ht hne _ htouch hu =>
      obtain ⟨v, vs, rfl, hvk, -, hvt, hv⟩ := Reads.cons hu
      cases hv
      cases m with
      | zero => simp at hm
      | succ m =>
        rw [String.ofList_toList] at hvt
        refine ⟨.literal (.number t.value (some u)) (some (t.span.upTo v.span)), ?_, rfl, ?_⟩
        · rw [Node.bare, hvalue t ht]
          rfl
        · rw [List.cons_append, factor_at, factorWith, bind_run_ok (current_run _)]
          simp only [List.cons_append, List.nil_append, Ahead.current_before, hk, UnaryOp.ofKind?]
          have hunit : LengthUnit.ofSymbol? v.text = some u := by
            rw [hvt, LengthUnit.ofSymbol?_symbol]
          refine number_unit (hk ▸ hne) ⟨hvk, by rw [hunit]; rfl, ?_⟩ hunit
          exact htouch rfl _ rfl (by simp) v rfl

theorem Operand.boolean (extra : Place → Phrase → Bool) (b : Bool) :
    Operand ((Phrase.boolean b).chunks extra) (Phrase.boolean b).node := by
  intro n rest ts last hr hl hres hn
  obtain ⟨t, us, rfl, hk, hne, ht, hu⟩ := Reads.cons hr
  cases hu
  have hb : (t.text == "true") = b := by
    rw [ht]
    cases b <;> decide
  cases n with
  | zero => simp at hn
  | succ n =>
    refine ⟨.literal (.boolean b) (some t.span), rfl, rfl, ?_⟩
    rw [List.cons_append, factor_at, factorWith, bind_run_ok (current_run _)]
    simp only [List.nil_append, Ahead.current_before, hk, UnaryOp.ofKind?]
    rw [bind_run_ok (advance_run_ok (Ahead.advance_before hne)), pure_run, hb]

theorem following_before_run (t : Token) (ts : List Token) (last : Token) :
    following (before (t :: ts) last) = .ok ((before ts last).current, before (t :: ts) last) := by
  rw [following_run, Ahead.following_before]
  rfl

theorem identifier_run {t : Token} (ht : t.kind = .identifier) (ts : List Token) (last : Token) :
    identifier (before (t :: ts) last) = .ok (⟨t.text, some t.span⟩, before ts last) := by
  unfold identifier
  rw [bind_run_ok (expect_run_ok ht (Ahead.advance_before (by rw [ht]; decide)))]
  rfl

/-- A name without a parenthesis behind it. -/
theorem factor_name {t last : Token} {ts : List Token} (hk : t.kind = .identifier)
    (hparen : (before ts last).current.kind ≠ .lparen) (n : Nat) :
    factor (n + 1) (before (t :: ts) last) = .ok (.var t.text (some t.span), before ts last) := by
  rw [factor_at, factorWith, bind_run_ok (current_run _)]
  simp only [Ahead.current_before, hk, UnaryOp.ofKind?]
  rw [bind_run_ok (following_before_run t ts last), if_neg hparen, bind_run_ok (identifier_run hk ts last),
    pure_run]

theorem Operand.var (x : Name) : Operand [Chunk.ofName x] (.var x.text none) := by
  intro n rest ts last hr hl hres hn
  obtain ⟨t, us, rfl, hk, -, ht, hu⟩ := Reads.cons hr
  cases hu
  have hparen : (before rest last).current.kind ≠ .lparen := by
    intro h
    rw [h] at hres
    cases hres
  cases n with
  | zero => simp at hn
  | succ n => exact ⟨.var t.text (some t.span), by rw [ht]; rfl, rfl, factor_name hk hparen n⟩

/-! ## Signs and parentheses -/

theorem Operand.unary (op : UnaryOp) (h : Operand ps node) :
    Operand (Chunk.sign op.kind :: ps) (.unary op node none) := by
  intro n rest ts last hr hl hres hn
  obtain ⟨t, us, rfl, hk, hne, -, hu⟩ := Reads.cons hr
  rw [List.length_cons] at hn
  cases n with
  | zero => omega
  | succ n =>
    obtain ⟨x, hx, hxe, hrun⟩ := h n rest hu hl hres (by omega)
    refine ⟨.unary op x (Span.join (some t.span) x.span), by rw [Node.bare, hx], rfl, ?_⟩
    rw [List.cons_append, factor_at, factorWith, bind_run_ok (current_run _)]
    simp only [Ahead.current_before, hk, UnaryOp.ofKind?_kind]
    rw [bind_run_ok (advance_run_ok (Ahead.advance_before hne)), bind_run_ok hrun,
      bind_run_ok (require_run_ok hxe _), pure_run]

/-- An expression between parentheses is an operand. -/
theorem factor_paren {l r last : Token} {ts vs : List Token} {n : Nat} (hl : l.kind = .lparen)
    (he : expr n .ignored (before ts last) = .ok (node, before (r :: vs) last))
    (hr : r.kind = .rparen) (hsome : node.isEmpty = false) :
    factor (n + 1) (before (l :: ts) last) = .ok (node, before vs last) := by
  rw [factor_at, factorWith, bind_run_ok (current_run _)]
  simp only [Ahead.current_before, hl, UnaryOp.ofKind?]
  rw [bind_run_ok (advance_run_ok (Ahead.advance_before (by rw [hl]; decide))), bind_run_ok he,
    bind_run_ok (require_run_ok hsome _),
    bind_run_ok (expect_run_ok hr (Ahead.advance_before (by rw [hr]; decide))), pure_run]

/-- What stands between parentheses is an operand, whatever follows. -/
theorem Whole.parens (h : Whole ps node) : Operand (Chunk.parens ps) node := by
  intro n rest ts last hr hl hres hn
  obtain ⟨t, us, u, rfl, hk, -, huk, -, hu⟩ := Reads.between hr
  simp only [List.length_cons, List.length_append, List.length_nil] at hn
  cases n with
  | zero => omega
  | succ n =>
    obtain ⟨x, hx, hxe, hrun⟩ := h n .ignored (u :: rest) hu hl
      (by simp [huk, Token.Kind.closes]) (by omega)
    refine ⟨x, hx, hxe, ?_⟩
    simp only [List.append_assoc, List.cons_append, List.nil_append]
    exact factor_paren hk hrun huk hxe

/-! ## Lists -/

section Lists

variable {ι : Type} {f : ι → List Chunk} {g : ι → Node} {ts rest : List Token} {last : Token}
  {n m : Nat}

/-- A list with something in it does not start with a token that ends an expression. -/
theorem listed_opens {k : Token.Kind} (hk : k.closes = true) {i : ι} (hi : Whole (f i) (g i))
    {items : List ι} (hr : Reads (Chunk.listed k ((i :: items).map f)) ts) (hl : last.kind = .eof)
    (hcl : (before rest last).current.kind.closes = true) :
    (before (ts ++ rest) last).current.kind.closes = false := by
  cases items with
  | nil =>
    rw [List.map_singleton, Chunk.listed_singleton] at hr
    exact hi.opens hr hl hcl
  | cons j items =>
    obtain ⟨us, t, ws, rfl, hu, htk, -, -⟩ := Reads.listed hr
    rw [List.append_assoc]
    exact hi.opens hu hl (by simp [htk, hk])

theorem arguments_listed {items : List ι} (h : ∀ i ∈ items, Whole (f i) (g i)) (rest : List Token)
    (hr : Reads (Chunk.listed .comma (items.map f)) ts) (hl : last.kind = .eof)
    (hend : (before rest last).current.kind = .rparen) (hn : 2 * ts.length + 1 ≤ n)
    (hm : ts.length < m) :
    ∃ xs, xs.map Node.bare = items.map g ∧
      arguments (expr n .ignored) m (before (ts ++ rest) last) = .ok (xs, before rest last) := by
  have hcl : (before rest last).current.kind.closes = true := by rw [hend]; rfl
  -- Each argument takes a token at least, so the rounds do not run out before the arguments.
  induction items generalizing ts m with
  | nil =>
    cases hr
    cases m with
    | zero => omega
    | succ m =>
      refine ⟨[], rfl, ?_⟩
      rw [List.nil_append, arguments, bind_run_ok (at?_run _ _), if_pos (beq_iff_eq.2 hend), pure_run]
  | cons i items ih =>
    have hi : Whole (f i) (g i) := h i List.mem_cons_self
    have hopen : ¬ ((before (ts ++ rest) last).current.kind == Token.Kind.rparen) = true :=
      Token.Kind.not_beq_of_closes (listed_opens rfl hi hr hl hcl) rfl
    cases m with
    | zero => omega
    | succ m =>
      cases items with
      | nil =>
        rw [List.map_singleton, Chunk.listed_singleton] at hr
        obtain ⟨x, hx, hxe, hrun⟩ := hi n .ignored rest hr hl hcl hn
        refine ⟨[x], by rw [List.map_singleton, List.map_singleton, hx], ?_⟩
        rw [arguments, bind_run_ok (at?_run _ _), if_neg hopen, bind_run_ok hrun,
          bind_run_ok (require_run_ok hxe _), bind_run_ok (accept_run_no (by rw [hend]; simp))]
        rfl
      | cons j items =>
        obtain ⟨us, t, ws, rfl, hu, htk, hne, hw⟩ := Reads.listed hr
        simp only [List.length_append, List.length_cons] at hn hm
        obtain ⟨x, hx, hxe, hrun⟩ := hi n .ignored (t :: (ws ++ rest)) hu
          hl (by simp [htk, Token.Kind.closes]) (by omega)
        obtain ⟨xs, hxs, hrest⟩ := ih (fun k hk => h k (List.mem_cons_of_mem i hk)) (m := m) hw
          (by omega) (by omega)
        refine ⟨x :: xs, by rw [List.map_cons, hx, hxs]; rfl, ?_⟩
        rw [List.append_assoc, List.cons_append] at hopen ⊢
        rw [arguments, bind_run_ok (at?_run _ _), if_neg hopen, bind_run_ok hrun,
          bind_run_ok (require_run_ok hxe _),
          bind_run_ok (accept_run_ok htk (Ahead.advance_before hne)), if_pos rfl,
          bind_run_ok hrest, pure_run]

theorem matrixRow_listed {items : List ι} (hne : items ≠ []) (h : ∀ i ∈ items, Whole (f i) (g i))
    (rest : List Token) (hr : Reads (Chunk.listed .comma (items.map f)) ts) (hl : last.kind = .eof)
    (hend : (before rest last).current.kind = .semicolon ∨
      (before rest last).current.kind = .rbracket) (hn : 2 * ts.length + 1 ≤ n)
    (hm : ts.length < m) :
    ∃ xs, xs.map Node.bare = items.map g ∧
      matrixRow (expr n .matters) m (before (ts ++ rest) last) = .ok (xs, before rest last) := by
  have hcl : (before rest last).current.kind.closes = true := by
    rcases hend with hend | hend <;> rw [hend] <;> rfl
  induction items generalizing ts m with
  | nil => exact absurd rfl hne
  | cons i items ih =>
    have hi : Whole (f i) (g i) := h i List.mem_cons_self
    cases m with
    | zero => omega
    | succ m =>
      cases items with
      | nil =>
        rw [List.map_singleton, Chunk.listed_singleton] at hr
        obtain ⟨x, hx, hxe, hrun⟩ := hi n .matters rest hr hl hcl hn
        refine ⟨[x], by rw [List.map_singleton, List.map_singleton, hx], ?_⟩
        exact matrixRow_run_last hrun hxe hend m
      | cons j items =>
        obtain ⟨us, t, ws, rfl, hu, htk, hte, hw⟩ := Reads.listed hr
        simp only [List.length_append, List.length_cons] at hn hm
        obtain ⟨x, hx, hxe, hrun⟩ := hi n .matters (t :: (ws ++ rest)) hu
          hl (by simp [htk, Token.Kind.closes]) (by omega)
        obtain ⟨xs, hxs, hrest⟩ := ih (by simp) (fun k hk => h k (List.mem_cons_of_mem i hk))
          (m := m) hw (by omega) (by omega)
        refine ⟨x :: xs, by rw [List.map_cons, hx, hxs]; rfl, ?_⟩
        rw [List.append_assoc, List.cons_append]
        exact matrixRow_run_more hrun hxe (by rw [Ahead.current_before, htk]; simp)
          (accept_run_ok htk (Ahead.advance_before hte)) hrest

theorem matrixRows_listed {rows : List (List ι)} (hne : ∀ row ∈ rows, row ≠ [])
    (h : ∀ row ∈ rows, ∀ i ∈ row, Whole (f i) (g i)) (rest : List Token)
    (hr : Reads (Chunk.listed .semicolon (rows.map fun row => Chunk.listed .comma (row.map f))) ts)
    (hl : last.kind = .eof) (hend : (before rest last).current.kind = .rbracket)
    (hn : 2 * ts.length + 1 ≤ n) (hm : ts.length < m) :
    ∃ xss, xss.map (List.map Node.bare) = rows.map (List.map g) ∧
      matrixRows (expr n .matters) m (before (ts ++ rest) last) = .ok (xss, before rest last) := by
  have hcl : (before rest last).current.kind.closes = true := by rw [hend]; rfl
  induction rows generalizing ts m with
  | nil =>
    cases hr
    cases m with
    | zero => omega
    | succ m =>
      refine ⟨[], rfl, ?_⟩
      exact matrixRows_run_end hend m
  | cons row rows ih =>
    have hrow : row ≠ [] := hne row List.mem_cons_self
    have hitems : ∀ i ∈ row, Whole (f i) (g i) := h row List.mem_cons_self
    -- The tokens of the row come first, and the first of them opens it.
    have hfirst : ∀ (vs : List Token) {us : List Token}, Reads (Chunk.listed .comma (row.map f)) us →
        (before vs last).current.kind.closes = true →
        (before (us ++ vs) last).current.kind.closes = false := by
      intro vs us hu hv
      cases row with
      | nil => exact absurd rfl hrow
      | cons i row => exact listed_opens rfl (hitems i List.mem_cons_self) hu hl hv
    cases m with
    | zero => omega
    | succ m =>
      cases rows with
      | nil =>
        rw [List.map_singleton, Chunk.listed_singleton] at hr
        have hopen := hfirst rest hr hcl
        have hpos : 0 < ts.length := by
          cases ts with
          | nil => rw [List.nil_append, hcl] at hopen; cases hopen
          | cons t ts => exact Nat.succ_pos _
        obtain ⟨xs, hxs, hrun⟩ := matrixRow_listed hrow hitems rest hr hl (.inr hend) hn
          (Nat.lt_of_le_of_lt (by simp) (Ahead.length_lt_size (ts ++ rest) last))
        have hnone : Reads (Chunk.listed .semicolon
            (([] : List (List ι)).map fun row => Chunk.listed .comma (row.map f))) [] := .nil
        obtain ⟨xss, hxss, hrest⟩ := ih (m := m) (by simp) (by simp) hnone
          (by rw [List.length_nil]; omega) (by rw [List.length_nil]; omega)
        refine ⟨xs :: xss, by rw [List.map_cons, List.map_cons, hxs, hxss], ?_⟩
        rw [List.nil_append] at hrest
        exact matrixRows_run_more (mt beq_iff_eq.2 (Token.Kind.not_beq_of_closes hopen rfl)) hrun
          (accept_run_no (by rw [hend]; simp)) hrest
      | cons row' rows =>
        obtain ⟨us, t, ws, rfl, hu, htk, hte, hw⟩ := Reads.listed hr
        simp only [List.length_append, List.length_cons] at hn hm
        have hopen := hfirst (t :: (ws ++ rest)) hu (by simp [htk, Token.Kind.closes])
        obtain ⟨xs, hxs, hrun⟩ := matrixRow_listed (n := n) hrow hitems (t :: (ws ++ rest)) hu
          hl (.inl htk) (by omega)
          (Nat.lt_of_le_of_lt (by simp) (Ahead.length_lt_size (us ++ t :: (ws ++ rest)) last))
        obtain ⟨xss, hxss, hrest⟩ := ih (m := m) (fun r hr => hne r (List.mem_cons_of_mem row hr))
          (fun r hr => h r (List.mem_cons_of_mem row hr)) hw (by omega) (by omega)
        refine ⟨xs :: xss, by rw [List.map_cons, hxs, hxss]; rfl, ?_⟩
        rw [List.append_assoc, List.cons_append]
        exact matrixRows_run_more (mt beq_iff_eq.2 (Token.Kind.not_beq_of_closes hopen rfl)) hrun
          (accept_run_ok htk (Ahead.advance_before hte)) hrest

/-- A rectangle of expressions between brackets. -/
theorem Operand.matrix (rows : List (List ι)) {width : Nat} (hrows : rows ≠ [])
    (hwidth : ∀ row ∈ rows, row.length = width + 1)
    (h : ∀ row ∈ rows, ∀ i ∈ row, Whole (f i) (g i)) :
    Operand (Chunk.sign .lbracket ::
        (Chunk.listed .semicolon (rows.map fun row => Chunk.listed .comma (row.map f)) ++
          [Chunk.sign .rbracket]))
      (.matrix (rows.map (List.map g)) none) := by
  intro n rest ts last hr hl hres hn
  obtain ⟨t, us, u, rfl, hk, hte, huk, hue, hu⟩ := Reads.between hr
  simp only [List.length_cons, List.length_append, List.length_nil] at hn
  cases n with
  | zero => omega
  | succ n =>
    have hne : ∀ row ∈ rows, row ≠ [] := by
      intro row hrow hnil
      have hw := hwidth row hrow
      rw [hnil] at hw
      cases hw
    obtain ⟨xss, hxss, hrun⟩ := matrixRows_listed (n := n) hne h (u :: rest) hu hl huk
      (by omega) (Nat.lt_of_le_of_lt (by simp) (Ahead.length_lt_size (us ++ u :: rest) last))
    -- The rows that were read are as long as those that were printed.
    have hlen : ∀ row ∈ xss, row.length = width + 1 := length_of_map_eq hxss hwidth
    refine ⟨.matrix xss (some (t.span.upTo u.span)), by rw [Node.bare, Node.bareRows_eq_map, hxss],
      rfl, ?_⟩
    rw [List.cons_append, factor_at, factorWith, bind_run_ok (current_run _)]
    simp only [List.append_assoc, List.cons_append, List.nil_append, Ahead.current_before, hk,
      UnaryOp.ofKind?]
    refine matrix_run_ok hk hrun huk (fun hnil => hrows ?_) hlen
    rwa [hnil, List.map_nil, eq_comm, List.map_eq_nil_iff] at hxss

/-- A name and a list between parentheses start a call or a definition, and are read as the name and
the list. -/
theorem call_listed (x : Name) {items : List ι} (h : ∀ i ∈ items, Whole (f i) (g i)) (n : Nat)
    (rest : List Token)
    (hr : Reads (Chunk.ofName x :: Chunk.parens (Chunk.listed .comma (items.map f))) ts)
    (hl : last.kind = .eof) (hn : 2 * ts.length ≤ n + 1) :
    factor (n + 1) (before (ts ++ rest) last) =
        callOrDefinition (expr n .ignored) (statements n) (before (ts ++ rest) last) ∧
      ∃ xs span, xs.map Node.bare = items.map g ∧
        call (expr n .ignored) (before (ts ++ rest) last) =
          .ok ((x.text, xs, span), before rest last) := by
  obtain ⟨t, us, rfl, hk, hte, ht, hu⟩ := Reads.cons hr
  obtain ⟨u, vs, w, rfl, huk, hue, hwk, hwe, hv⟩ := Reads.between hu
  simp only [List.length_cons, List.length_append, List.length_nil] at hn
  simp only [List.append_assoc, List.cons_append, List.nil_append]
  constructor
  · rw [factor_at, factorWith, bind_run_ok (current_run _)]
    simp only [Ahead.current_before, hk, UnaryOp.ofKind?]
    rw [bind_run_ok (following_before_run _ _ _), Ahead.current_before, if_pos huk]
  · obtain ⟨xs, hxs, hrun⟩ := arguments_listed (n := n) h (w :: rest) hv hl hwk (by omega)
      (Nat.lt_of_le_of_lt (by simp) (Ahead.length_lt_size (vs ++ w :: rest) last))
    refine ⟨xs, some (t.span.upTo w.span), hxs, ?_⟩
    rw [call, bind_run_ok (advance_run_ok (Ahead.advance_before hte)),
      bind_run_ok (expect_run_ok huk (Ahead.advance_before hue)),
      bind_run_ok (bounded_run _ _ |>.trans hrun),
      bind_run_ok (expect_run_ok hwk (Ahead.advance_before hwe)), pure_run, Ahead.current_before, ht]
    rfl

/-- A call. -/
theorem Operand.call (x : Name) (items : List ι) (h : ∀ i ∈ items, Whole (f i) (g i)) :
    Operand (Chunk.ofName x :: Chunk.parens (Chunk.listed .comma (items.map f)))
      (.call x.text (items.map g) none) := by
  intro n rest ts last hr hl hres hn
  have hno : ¬ ((before rest last).current.kind = .assign ∨
      (before rest last).current.kind = .fatArrow) := by
    rintro (hk | hk) <;> rw [hk] at hres <;> cases hres
  cases n with
  | zero =>
    obtain ⟨t, us, rfl, -⟩ := Reads.cons hr
    rw [List.length_cons] at hn
    omega
  | succ n =>
    obtain ⟨hfactor, xs, span, hxs, hrun⟩ := call_listed x h n rest hr hl hn
    refine ⟨.call x.text xs span, by rw [Node.bare, Node.bareList_eq_map, hxs], rfl, ?_⟩
    rw [hfactor, callOrDefinition, bind_run_ok hrun]
    simp only
    rw [bind_run_ok (current_run _), if_neg hno, pure_run]

end Lists

end Parser

end Reckon
