import Reckon.Proofs.Lexing.Next
import Reckon.Syntax.Parser
import Mathlib.Logic.Relation

/-!
# Positions of a parser

A parser stands at a position (`Ahead`): a current token and those behind it.  It moves only by taking
tokens, which leads from one position to others (`Ahead.Reaches`).

`left` counts the tokens before the end of input.  Where the tokens end as those of a text do
(`Closed`), taking one leaves fewer, so that `left` bounds every loop.  `before` is the position before
given tokens, with the end of input behind them.
-/

namespace Reckon

namespace Ahead

/-- The positions that are met by taking tokens. -/
def Reaches : Ahead → Ahead → Prop :=
  Relation.ReflTransGen fun a b => a.advance = .ok b

/-- If the tokens end well, they end with the end of input. -/
def Closed (a : Ahead) : Prop :=
  ∀ t, a.ending = .ok t → t.kind = .eof

/-- How many tokens stand before the end of input. -/
def left (a : Ahead) : Nat :=
  if a.current.kind = .eof then 0 else a.rest.length + 1

/-- A position that a parser of this text can come to. -/
def Within (file source : String) (a : Ahead) : Prop :=
  ∃ first, start (TokenStream.ofChars file source.toList) = .ok first ∧ first.Reaches a

variable {a b : Ahead}

theorem left_lt_size (a : Ahead) : a.left < a.size := by
  unfold left size
  split <;> omega

/-- Past the current token: either nothing moved at the end of input, or the next token is current,
or the end of input is. -/
theorem advance_cases (h : a.advance = .ok b) :
    (a.current.kind = .eof ∧ b = a) ∨
    (a.current.kind ≠ .eof ∧ ∃ t rest, a.rest = t :: rest ∧
      b = { a with current := t, rest := rest }) ∨
    (a.current.kind ≠ .eof ∧ a.rest = [] ∧ ∃ t, a.ending = .ok t ∧ b = { a with current := t }) := by
  unfold advance at h
  split at h
  · rename_i hk
    cases h
    exact .inl ⟨hk, rfl⟩
  · rename_i hk
    split at h
    · rename_i t rest hr
      cases h
      exact .inr (.inl ⟨hk, t, rest, hr, rfl⟩)
    · rename_i hr
      cases he : a.ending with
      | error e => rw [he] at h; cases h
      | ok t =>
        rw [he] at h
        cases h
        exact .inr (.inr ⟨hk, hr, t, rfl, rfl⟩)

theorem Closed.advance (hc : a.Closed) (h : a.advance = .ok b) : b.Closed := by
  rcases advance_cases h with ⟨-, rfl⟩ | ⟨-, t, rest, -, rfl⟩ | ⟨-, -, t, -, rfl⟩ <;> exact hc

/-- Taking a token leaves fewer. -/
theorem Closed.left_lt (hc : a.Closed) (hk : a.current.kind ≠ .eof) (h : a.advance = .ok b) :
    b.left < a.left := by
  have ha : a.left = a.rest.length + 1 := if_neg hk
  rcases advance_cases h with ⟨hk', -⟩ | ⟨-, t, rest, hr, rfl⟩ | ⟨-, -, t, he, rfl⟩
  · exact absurd hk' hk
  · rw [ha, hr, List.length_cons]
    unfold left
    split
    · omega
    · exact Nat.lt_succ_self _
  · have ht : t.kind = .eof := hc t he
    rw [ha, left, if_pos ht]
    omega

theorem Reaches.refl (a : Ahead) : a.Reaches a :=
  Relation.ReflTransGen.refl

/-- From the end of input only the end of input is reached. -/
theorem Reaches.kind_eq_eof (h : a.Reaches b) (hk : a.current.kind = .eof) : b.current.kind = .eof := by
  induction h with
  | refl => exact hk
  | tail _ hs ih =>
    rcases advance_cases hs with ⟨-, rfl⟩ | ⟨hne, -⟩ | ⟨hne, -⟩
    · exact ih
    · exact absurd ih hne
    · exact absurd ih hne

theorem Reaches.closed (h : a.Reaches b) (hc : a.Closed) : b.Closed := by
  induction h with
  | refl => exact hc
  | tail _ hs ih => exact ih.advance hs

theorem Reaches.left_le (h : a.Reaches b) (hc : a.Closed) : b.left ≤ a.left := by
  induction h with
  | refl => exact Nat.le_refl _
  | @tail b c hab hs ih =>
    by_cases hk : b.current.kind = .eof
    · rcases advance_cases hs with ⟨-, rfl⟩ | ⟨hk', -⟩ | ⟨hk', -⟩
      · exact ih
      · exact absurd hk hk'
      · exact absurd hk hk'
    · exact Nat.le_trans (Nat.le_of_lt ((Reaches.closed hab hc).left_lt hk hs)) ih

end Ahead

/-! ## The tokens of a text -/

/-- The tokens of a text end with the end of input, or with an error. -/
theorem Ahead.closed_start {file : String} {source : List Char} {a : Ahead}
    (h : start (TokenStream.ofChars file source) = .ok a) : a.Closed := by
  have hend : ∀ t, (TokenStream.ofChars file source).ending = .ok t → t.kind = .eof :=
    fun t ht => Cursor.lexFrom_ending (Nat.le_refl _) ht
  generalize TokenStream.ofChars file source = s at h hend
  unfold start at h
  split at h
  · cases h
    exact hend
  · cases he : s.ending with
    | error e => rw [he] at h; cases h
    | ok t =>
      rw [he] at h
      cases h
      exact fun u hu => hend u (he.trans hu)

theorem Ahead.Within.closed {file source : String} {a : Ahead} (h : Within file source a) :
    a.Closed := by
  obtain ⟨first, hs, hr⟩ := h
  exact hr.closed (closed_start hs)

/-! ## Positions before given tokens -/

namespace Ahead

/-- The position before these tokens, with the end of input behind them. -/
def before (ts : List Token) (last : Token) : Ahead :=
  match ts with
  | [] => ⟨last, [], .ok last⟩
  | t :: rest => ⟨t, rest, .ok last⟩

variable {t last : Token} {ts : List Token}

@[simp]
theorem current_before (t : Token) (ts : List Token) (last : Token) :
    (before (t :: ts) last).current = t := rfl

theorem start_eq_before (ts : List Token) (last : Token) :
    start ⟨ts, .ok last⟩ = .ok (before ts last) := by
  cases ts <;> rfl

theorem advance_before (ht : t.kind ≠ .eof) :
    (before (t :: ts) last).advance = .ok (before ts last) := by
  refine (if_neg ht).trans ?_
  cases ts <;> rfl

theorem following_before (t : Token) (ts : List Token) (last : Token) :
    (before (t :: ts) last).following = .ok (before ts last).current := by
  cases ts <;> rfl

theorem closed_before (hl : last.kind = .eof) (ts : List Token) : (before ts last).Closed := by
  intro t ht
  cases ts <;> cases ht <;> exact hl

theorem size_before (ts : List Token) (last : Token) :
    (before ts last).size = max (ts.length + 1) 2 := by
  cases ts with
  | nil => rfl
  | cons t ts =>
    show ts.length + 2 = _
    rw [List.length_cons]
    omega

theorem length_lt_size (ts : List Token) (last : Token) : ts.length < (before ts last).size := by
  rw [size_before]
  omega

end Ahead

end Reckon
