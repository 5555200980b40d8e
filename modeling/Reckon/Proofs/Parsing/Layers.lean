import Reckon.Proofs.Parsing.Climbing

/-!
# Precedence climbing and layers

The textbook grammar of binary operators has a layer for each level: an expression of a layer is one
of the next tighter layer, followed by any number of operators of exactly this level, each with
another operand of the tighter layer, grouped to the left (`layered`).  `binary` reads all levels in
one loop and recurses for right operands only.  At every position of every text the two have the same
outcome: the same tree and spans, the same position afterwards, or the same error.

The reason is that climbing with a larger bound on the level is climbing with the smaller one and
then folding the level in between (`climbing_succ`), and so on down to single operands.
-/

namespace Reckon.Parser

/-! ## Layers -/

/-- The operator that the token is in this context, if it is one of exactly this level. -/
def operatorAt? (spacing : Spacing) (level : Nat) (t : Token) : Option BinaryOp :=
  (BinaryOp.ofKind? t.kind).filter fun op =>
    op.level == level && (spacing == .ignored || !op.isSign || t.joinsNeighbours)

/-- Goes on from a left operand with operators of exactly one level; `n` bounds their number. -/
def foldLevel (operand : Parser Node) (spacing : Spacing) (level : Nat) : Nat → Node → Parser Node
  | 0, _ => tooNested
  | n + 1, left => do
    match operatorAt? spacing level (← current) with
    | none => return left
    | some op =>
      let left ← require left
      let _ ← advance
      let right ← require (← operand)
      foldLevel operand spacing level n (.binary left op right (Span.join left.span right.span))

/-- Operands joined by operators of a level below `bound`, one layer for each level. -/
def layered (factor : Parser Node) (spacing : Spacing) : Nat → Parser Node
  | 0 => factor
  | level + 1 => do
    let left ← layered factor spacing level
    bounded fun n => foldLevel (layered factor spacing level) spacing level n left

theorem operatorAt?_eq_some_iff {spacing : Spacing} {level : Nat} {t : Token} {op : BinaryOp} :
    operatorAt? spacing level t = some op ↔
      operator? spacing (level + 1) t = some op ∧ op.level = level := by
  unfold operatorAt? operator?
  cases BinaryOp.ofKind? t.kind with
  | none => simp
  | some o =>
    cases spacing <;> simp [Option.filter] <;> grind

section Loops

variable {factor operand : Parser Node} {spacing : Spacing} {level n m : Nat} {left : Node}
  {op : BinaryOp} {a b : Ahead}

/-! ## Folding without counting rounds -/

theorem foldLevel_none (h : operatorAt? spacing level a.current = none) :
    foldLevel operand spacing level (n + 1) left a = .ok (left, a) := by
  rw [foldLevel, bind_run_ok (current_run a), h]
  rfl

theorem foldLevel_some (h : operatorAt? spacing level a.current = some op) :
    foldLevel operand spacing level (n + 1) left a =
      (join left op operand >>= foldLevel operand spacing level n) a := by
  rw [foldLevel, bind_run_ok (current_run a), h]
  simp only [join, bind_assoc, pure_bind]

/-- With more rounds than tokens left, the number of rounds does not matter. -/
theorem foldLevel_rounds (ho : Moves operand) (hc : a.Closed) (hn : a.left < n) (hm : a.left < m) :
    foldLevel operand spacing level n left a = foldLevel operand spacing level m left a := by
  induction n generalizing m left a with
  | zero => omega
  | succ n ih =>
    cases m with
    | zero => omega
    | succ m =>
      cases hop : operatorAt? spacing level a.current with
      | none => rw [foldLevel_none hop, foldLevel_none hop]
      | some op =>
        have hk := kind_ne_eof_of_operator? (operatorAt?_eq_some_iff.1 hop).1
        rw [foldLevel_some hop, foldLevel_some hop]
        refine bind_congr rfl fun node b hb => ?_
        obtain ⟨hc', hlt⟩ := join_left_lt ho hc hk hb
        exact ih hc' (by omega) (by omega)

/-- Folding with as many rounds as there are tokens. -/
def folding (operand : Parser Node) (spacing : Spacing) (level : Nat) (left : Node) : Parser Node :=
  bounded fun n => foldLevel operand spacing level n left

theorem folding_none (h : operatorAt? spacing level a.current = none) :
    folding operand spacing level left a = .ok (left, a) :=
  foldLevel_none h

theorem folding_some (ho : Moves operand) (hc : a.Closed)
    (h : operatorAt? spacing level a.current = some op) :
    folding operand spacing level left a =
      (join left op operand >>= folding operand spacing level) a := by
  have hk := kind_ne_eof_of_operator? (operatorAt?_eq_some_iff.1 h).1
  have hsize := a.left_lt_size
  refine (foldLevel_some (n := a.rest.length + 1) h).trans (bind_congr rfl fun node b hb => ?_)
  obtain ⟨hc', hlt⟩ := join_left_lt ho hc hk hb
  exact foldLevel_rounds ho hc' (by unfold Ahead.size at hsize; omega) b.left_lt_size

/-! ## One level more -/

/-- Where no operator binds more tightly than the next level, one that binds more tightly than the
level after it is of that level. -/
theorem operatorAt?_of_operator?_succ (hk : operator? spacing level a.current = none)
    (h : operator? spacing (level + 1) a.current = some op) :
    operatorAt? spacing level a.current = some op := by
  refine operatorAt?_eq_some_iff.2 ⟨h, ?_⟩
  unfold operator? at h hk
  cases hkind : BinaryOp.ofKind? a.current.kind with
  | none => rw [hkind] at h; cases h
  | some o =>
    rw [hkind] at h hk
    grind

theorem operator?_succ_of_operator? (h : operator? spacing level a.current = some op) :
    operator? spacing (level + 1) a.current = some op ∧ op.level < level := by
  unfold operator? at h ⊢
  cases hkind : BinaryOp.ofKind? a.current.kind with
  | none => rw [hkind] at h; cases h
  | some o =>
    rw [hkind] at h
    grind

/-- Climbing over one level more is climbing without it and then folding that level, if the operands
of the fold are read by climbing without it. -/
theorem climbing_succ (hf : Moves factor) (ho : Moves operand)
    (heq : ∀ b : Ahead, b.Closed → operand b = (factor >>= climbing factor spacing level) b)
    (hc : a.Closed) :
    climbing factor spacing (level + 1) left a =
      (climbing factor spacing level left >>= folding operand spacing level) a := by
  generalize hm : a.left = m
  induction m using Nat.strongRecOn generalizing a left with
  | ind m ih =>
    have hmv : ∀ k, Moves (factor >>= climbing factor spacing k) :=
      fun k => hf.bind fun _ => Moves.bounded fun _ => hf.climb _ _ _ _
    cases htight : operator? spacing level a.current with
    | some op =>
      -- A tighter operator: both sides take it in the same way and go on.
      obtain ⟨hnext, -⟩ := operator?_succ_of_operator? htight
      have hk := kind_ne_eof_of_operator? htight
      rw [climbing_some hf hc hnext, bind_run, bind_run, climbing_some hf hc htight, bind_run]
      cases hj : join left op (factor >>= climbing factor spacing op.level) a with
      | error e => rfl
      | ok r =>
        obtain ⟨hc', hlt⟩ := join_left_lt (hmv _) hc hk hj
        have hrest : climbing factor spacing (level + 1) r.1 r.2 =
            (climbing factor spacing level r.1 >>= folding operand spacing level) r.2 :=
          ih r.2.left (hm ▸ hlt) hc' rfl
        rw [bind_run] at hrest
        exact hrest
    | none =>
      rw [bind_run_ok (climbing_none htight)]
      cases hnext : operator? spacing (level + 1) a.current with
      | none =>
        have hat : operatorAt? spacing level a.current = none := by
          cases hat : operatorAt? spacing level a.current with
          | none => rfl
          | some op => rw [(operatorAt?_eq_some_iff.1 hat).1] at hnext; cases hnext
        rw [climbing_none hnext, folding_none hat]
      | some op =>
        -- An operator of this level: its right operand stops before any tighter operator.
        have hat := operatorAt?_of_operator?_succ htight hnext
        obtain ⟨-, hlevel⟩ := operatorAt?_eq_some_iff.1 hat
        have hk := kind_ne_eof_of_operator? hnext
        rw [climbing_some hf hc hnext, folding_some ho hc hat, hlevel]
        refine bind_congr (join_congr fun b hb => (heq b (hc.advance hb)).symm) fun node b hb => ?_
        obtain ⟨hc', hlt⟩ := join_left_lt (hmv _) hc hk hb
        rw [ih b.left (hm ▸ hlt) hc' rfl]
        obtain ⟨c, right, hadv, hr⟩ := join_eq_ok hb
        obtain ⟨x, d, hx, hd⟩ := bind_eq_ok hr
        exact bind_run_ok (climbing_none
          (climbing_stops hf ((hf c x d hx).closed (hc.advance hadv)) hd))

theorem moves_layered (hf : Moves factor) (spacing : Spacing) (bound : Nat) :
    Moves (layered factor spacing bound) := by
  induction bound with
  | zero => exact hf
  | succ level ih =>
    have hfold : ∀ n left, Moves (foldLevel (layered factor spacing level) spacing level n left) := by
      intro n
      induction n with
      | zero => exact fun _ => Moves.tooNested
      | succ n ihn =>
        intro left
        refine Moves.current.bind fun t => ?_
        split
        · exact Moves.pure _
        · exact (Moves.require _).bind fun _ => Moves.advance.bind fun _ => ih.bind fun _ =>
            (Moves.require _).bind fun _ => ihn _
    exact ih.bind fun left => Moves.bounded fun n => hfold n left

/-- Operators over any operand that only moves forward: climbing reads what the layers read. -/
theorem binary_eq_layered_of_moves (hf : Moves factor) (spacing : Spacing) (bound : Nat)
    (hc : a.Closed) : binary factor spacing bound a = layered factor spacing bound a := by
  induction bound generalizing a with
  | zero =>
    show (factor >>= climbing factor spacing 0) a = factor a
    rw [bind_run]
    cases factor a with
    | error e => rfl
    | ok r => exact climbing_none (operator?_zero spacing _)
  | succ level ih =>
    have hmv := moves_layered hf spacing level
    have hsplit : ∀ x c, factor a = .ok (x, c) →
        climbing factor spacing (level + 1) x c =
          (climbing factor spacing level x >>=
            folding (layered factor spacing level) spacing level) c :=
      fun x c hx => climbing_succ hf hmv (fun b hb => (ih hb).symm) ((hf a x c hx).closed hc)
    calc binary factor spacing (level + 1) a
        = (factor >>= climbing factor spacing (level + 1)) a := rfl
      _ = (factor >>= fun x => climbing factor spacing level x >>=
            folding (layered factor spacing level) spacing level) a := bind_congr rfl hsplit
      _ = (binary factor spacing level >>=
            folding (layered factor spacing level) spacing level) a := by
          rw [← bind_assoc]
          rfl
      _ = layered factor spacing (level + 1) a := bind_congr (ih hc) fun _ _ _ => rfl

end Loops

/-- **Precedence climbing reads the layered grammar.**  At every position of every text, for every
bound on the level and whether blanks matter or not, the loop over all levels and the parser with a
layer for each level have the same outcome. -/
theorem binary_eq_layered {file source : String} {a : Ahead} (h : a.Within file source)
    (depth : Nat) (spacing : Spacing) (bound : Nat) :
    binary (factor depth) spacing bound a = layered (factor depth) spacing bound a :=
  binary_eq_layered_of_moves (Moves.grammar depth).2.1 spacing bound h.closed

/-- In a matrix row `1 -2 * 3` is two elements, of which both parsers read the first. -/
theorem binary_eq_layered_row :
    ∃ a r, a.Within "input" "1 -2 * 3" ∧ binary (factor 9) .matters 4 a = .ok r ∧
      layered (factor 9) .matters 4 a = .ok r ∧ r.2.left = 4 := by
  have h : Ahead.Within "input" "1 -2 * 3" _ := ⟨_, rfl, .refl _⟩
  exact ⟨_, _, h, rfl, (binary_eq_layered h 9 .matters 4).symm, rfl⟩

end Reckon.Parser
