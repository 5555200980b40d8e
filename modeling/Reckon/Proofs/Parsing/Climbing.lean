import Reckon.Proofs.Parsing.Moves

/-!
# Climbing without counting rounds

`climb` counts down the rounds of its loop, and starts with as many as there are tokens.  Each round
takes a token, so the count is never used up (`climb_rounds`), and the loop started that way
(`climbing`) goes on as the loop without a count would: it stops where no operator binds tightly
enough (`climbing_none`), and takes the operator with its right operand otherwise (`climbing_some`).
-/

namespace Reckon.Parser

theorem operator?_zero (spacing : Spacing) (t : Token) : operator? spacing 0 t = none := by
  unfold operator?
  split <;> simp

/-- The end of input is no operator. -/
theorem kind_ne_eof_of_operator? {spacing : Spacing} {bound : Nat} {t : Token} {op : BinaryOp}
    (h : operator? spacing bound t = some op) : t.kind ≠ .eof := by
  intro hk
  unfold operator? at h
  rw [hk] at h
  cases h

theorem operator?_eq_none {spacing : Spacing} {bound : Nat} {t : Token}
    (h : ∀ op, BinaryOp.ofKind? t.kind = some op → bound ≤ op.level) :
    operator? spacing bound t = none := by
  unfold operator?
  split
  · rename_i op ho
    have hle := h op ho
    rw [if_neg (by omega)]
  · rfl

/-! ## One operator -/

/-- What an operator adds to its left operand: both operands have to be there. -/
def join (left : Node) (op : BinaryOp) (operand : Parser Node) : Parser Node := do
  let left ← require left
  let _ ← advance
  let right ← require (← operand)
  return .binary left op right (Span.join left.span right.span)

section Climbing

variable {factor operand : Parser Node} {spacing : Spacing} {bound n m : Nat} {left : Node}
  {op : BinaryOp} {a b : Ahead}

theorem join_congr {p q : Parser Node} (h : ∀ b, a.advance = .ok b → p b = q b) :
    join left op p a = join left op q a := by
  refine bind_congr rfl fun l b hl => ?_
  obtain ⟨-, rfl, -⟩ := require_eq_ok hl
  refine bind_congr rfl fun t c hc => ?_
  exact bind_congr (h c (advance_eq_ok hc).2) fun _ _ _ => rfl

/-- Where an operator was taken, the operand behind it was read and nothing more. -/
theorem join_eq_ok {node : Node} (h : join left op operand a = .ok (node, b)) :
    ∃ c right, a.advance = .ok c ∧ operand c = .ok (right, b) := by
  obtain ⟨l, a', hl, h₁⟩ := bind_eq_ok h
  obtain ⟨-, rfl, -⟩ := require_eq_ok hl
  obtain ⟨t, c, hc, h₂⟩ := bind_eq_ok h₁
  obtain ⟨right, d, hd, h₃⟩ := bind_eq_ok h₂
  obtain ⟨r, d', hd', h₄⟩ := bind_eq_ok h₃
  obtain ⟨-, rfl, -⟩ := require_eq_ok hd'
  cases h₄
  exact ⟨c, right, (advance_eq_ok hc).2, hd⟩

/-- An operator and its right operand take a token at least. -/
theorem join_left_lt {node : Node} (ho : Moves operand) (hc : a.Closed)
    (hk : a.current.kind ≠ .eof) (h : join left op operand a = .ok (node, b)) :
    b.Closed ∧ b.left < a.left := by
  obtain ⟨c, right, hadv, hr⟩ := join_eq_ok h
  have hreach := ho c right b hr
  have hle := hreach.left_le (hc.advance hadv)
  have hlt := hc.left_lt hk hadv
  exact ⟨hreach.closed (hc.advance hadv), by omega⟩

/-! ## Rounds -/

theorem climb_none (h : operator? spacing bound a.current = none) :
    climb factor spacing (n + 1) bound left a = .ok (left, a) := by
  rw [climb, bind_run_ok (current_run a), h]
  rfl

theorem climb_some (h : operator? spacing bound a.current = some op) :
    climb factor spacing (n + 1) bound left a =
      (join left op (factor >>= climb factor spacing n op.level) >>=
        climb factor spacing n bound) a := by
  rw [climb, bind_run_ok (current_run a), h]
  simp only [join, bind_assoc, pure_bind]

/-- With more rounds than tokens left, the number of rounds does not matter. -/
theorem climb_rounds (hf : Moves factor) (hc : a.Closed) (hn : a.left < n) (hm : a.left < m) :
    climb factor spacing n bound left a = climb factor spacing m bound left a := by
  induction n generalizing m bound left a with
  | zero => omega
  | succ n ih =>
    cases m with
    | zero => omega
    | succ m =>
      cases ho : operator? spacing bound a.current with
      | none => rw [climb_none ho, climb_none ho]
      | some op =>
        have hk := kind_ne_eof_of_operator? ho
        rw [climb_some ho, climb_some ho]
        -- The operator takes a token, so fewer are left for the right operand and for what follows.
        refine bind_congr (join_congr fun b hb => ?_) fun node b hb => ?_
        · have hlt := hc.left_lt hk hb
          refine bind_congr rfl fun x c hx => ?_
          have hr := hf b x c hx
          have hle := hr.left_le (hc.advance hb)
          exact ih (hr.closed (hc.advance hb)) (by omega) (by omega)
        · obtain ⟨hc', hlt⟩ := join_left_lt (hf.bind fun _ => hf.climb _ _ _ _) hc hk hb
          exact ih hc' (by omega) (by omega)

/-- Climbing with as many rounds as there are tokens. -/
def climbing (factor : Parser Node) (spacing : Spacing) (bound : Nat) (left : Node) : Parser Node :=
  bounded fun n => climb factor spacing n bound left

theorem climbing_none (h : operator? spacing bound a.current = none) :
    climbing factor spacing bound left a = .ok (left, a) :=
  climb_none h

theorem climbing_some (hf : Moves factor) (hc : a.Closed)
    (h : operator? spacing bound a.current = some op) :
    climbing factor spacing bound left a =
      (join left op (factor >>= climbing factor spacing op.level) >>=
        climbing factor spacing bound) a := by
  have hk := kind_ne_eof_of_operator? h
  have hsize := a.left_lt_size
  refine (climb_some (n := a.rest.length + 1) h).trans
    (bind_congr (join_congr fun b hb => ?_) fun node b hb => ?_)
  · refine bind_congr rfl fun x c hx => ?_
    have hlt := hc.left_lt hk hb
    have hr := hf b x c hx
    have hle := hr.left_le (hc.advance hb)
    exact climb_rounds hf (hr.closed (hc.advance hb)) (by unfold Ahead.size at hsize; omega)
      c.left_lt_size
  · obtain ⟨hc', hlt⟩ := join_left_lt (hf.bind fun _ => hf.climb _ _ _ _) hc hk hb
    exact climb_rounds hf hc' (by unfold Ahead.size at hsize; omega) b.left_lt_size

/-- Climbing stops only where no operator binds tightly enough. -/
theorem climbing_stops (hf : Moves factor) (hc : a.Closed) {node : Node}
    (h : climbing factor spacing bound left a = .ok (node, b)) :
    operator? spacing bound b.current = none := by
  generalize hm : a.left = m
  induction m using Nat.strongRecOn generalizing a left with
  | ind m ih =>
    cases ho : operator? spacing bound a.current with
    | none =>
      rw [climbing_none ho] at h
      cases h
      exact ho
    | some op =>
      rw [climbing_some hf hc ho] at h
      obtain ⟨x, c, hx, h⟩ := bind_eq_ok h
      have hmv : Moves (factor >>= climbing factor spacing op.level) :=
        hf.bind fun _ => Moves.bounded fun _ => hf.climb _ _ _ _
      obtain ⟨hc', hlt⟩ := join_left_lt hmv hc (kind_ne_eof_of_operator? ho) hx
      exact ih c.left (hm ▸ hlt) hc' h rfl

end Climbing

/-- An operand without an operator or a condition behind it is an expression. -/
theorem expr_of_factor {n : Nat} {a b : Ahead} {x : Node} (spacing : Spacing)
    (h : factor n a = .ok (x, b)) (hop : BinaryOp.ofKind? b.current.kind = none)
    (hq : b.current.kind ≠ .question) : expr (n + 1) spacing a = .ok (x, b) := by
  have hstop : operator? spacing BinaryOp.levels b.current = none :=
    operator?_eq_none fun op ho => by rw [hop] at ho; cases ho
  have hbin : Parser.binary (factor n) spacing BinaryOp.levels a = .ok (x, b) :=
    (bind_run_ok h).trans (climbing_none hstop)
  rw [expr, ternaryWith, bind_run_ok hbin, bind_run_ok (at?_run _ _), if_neg (mt beq_iff_eq.1 hq),
    pure_run]

end Reckon.Parser
