import Reckon.Token.Cursor

/-!
# One token after the other

What `Cursor.next` does in its three cases, and what follows for reading all tokens: each token before
the end of input takes a character, so the number of characters left bounds the number of tokens left
and the last token is the end of input.
-/

namespace Reckon.Cursor

variable {file : String} {c d : Cursor} {t : Token}

theorem next_of_empty (file : String) (h : c.skipBlanks.after = []) :
    c.next file = (.ok (token file .eof [] c.skipBlanks c.skipBlanks), c.skipBlanks) := by
  unfold next
  dsimp only
  rw [h]
  rfl

theorem next_of_scan (file : String) {lexeme : List Char} {kind : Token.Kind}
    (h : Token.scan? c.skipBlanks.after = some (lexeme, kind)) :
    c.next file =
      (.ok (token file kind lexeme c.skipBlanks (c.skipBlanks.advance lexeme.length)),
        c.skipBlanks.advance lexeme.length) := by
  have hne : c.skipBlanks.after.isEmpty = false := by
    cases hs : c.skipBlanks.after with
    | nil => rw [hs] at h; cases h
    | cons x r => rfl
  unfold next
  dsimp only
  rw [hne, h]
  rfl

theorem next_of_stray (hne : c.skipBlanks.after ≠ [])
    (h : Token.scan? c.skipBlanks.after = none) :
    c.next file = (.error (c.skipBlanks.unexpected file), c.skipBlanks) := by
  have he : c.skipBlanks.after.isEmpty = false := by
    cases hs : c.skipBlanks.after with
    | nil => exact absurd hs hne
    | cons x r => rfl
  unfold next
  dsimp only
  rw [he, h]
  rfl

/-- What is read is the end of input, a scanned lexeme, or an error. -/
theorem next_cases (file : String) (c : Cursor) :
    (c.skipBlanks.after = [] ∧
      c.next file = (.ok (token file .eof [] c.skipBlanks c.skipBlanks), c.skipBlanks)) ∨
    (∃ lexeme kind, Token.scan? c.skipBlanks.after = some (lexeme, kind) ∧
      c.next file =
        (.ok (token file kind lexeme c.skipBlanks (c.skipBlanks.advance lexeme.length)),
          c.skipBlanks.advance lexeme.length)) ∨
    (c.skipBlanks.after ≠ [] ∧ Token.scan? c.skipBlanks.after = none ∧
      c.next file = (.error (c.skipBlanks.unexpected file), c.skipBlanks)) := by
  by_cases he : c.skipBlanks.after = []
  · exact .inl ⟨he, next_of_empty file he⟩
  · cases hs : Token.scan? c.skipBlanks.after with
    | none => exact .inr (.inr ⟨he, rfl, next_of_stray he hs⟩)
    | some s => exact .inr (.inl ⟨s.1, s.2, rfl, next_of_scan file hs⟩)

theorem length_skipBlanks_le (c : Cursor) : c.skipBlanks.after.length ≤ c.after.length := by
  rw [skipBlanks_after]
  exact (List.dropWhile_suffix _).length_le

/-- At the end of the text stands the end of input. -/
theorem next_eof (h : c.after = []) (hn : (c.next file).1 = .ok t) : t.kind = .eof := by
  have hs : c.skipBlanks.after = [] := by rw [skipBlanks_after, h]; rfl
  rw [next_of_empty file hs] at hn
  cases hn
  rfl

/-- A token that is not the end of input takes a character. -/
theorem length_next_lt (hn : c.next file = (.ok t, d)) (hk : t.kind ≠ .eof) :
    d.after.length < c.after.length := by
  have hle := c.length_skipBlanks_le
  rcases next_cases file c with ⟨-, he⟩ | ⟨lexeme, kind, hs, he⟩ | ⟨-, -, he⟩
  · rw [he] at hn
    cases hn
    exact absurd rfl hk
  · rw [he] at hn
    cases hn
    obtain ⟨r, hr⟩ := Token.scan?_append hs
    have hl : 0 < lexeme.length := List.length_pos_iff.2 (Token.scan?_ne_nil hs)
    have hlen : c.skipBlanks.after.length = lexeme.length + r.length := by
      rw [hr, List.length_append]
    rw [advance_after, List.length_drop]
    omega
  · rw [he] at hn
    cases hn

/-- Reading as many tokens as there are characters comes to the end of input or to an error. -/
theorem lexFrom_ending {n : Nat} (hn : c.after.length ≤ n)
    (h : (c.lexFrom file n).2.1 = .ok t) : t.kind = .eof := by
  induction n generalizing c with
  | zero =>
    have hc : c.after = [] := List.eq_nil_of_length_eq_zero (Nat.le_zero.1 hn)
    exact next_eof hc h
  | succ n ih =>
    rw [lexFrom] at h
    split at h
    · cases h
    · rename_i u d hu
      split at h
      · rename_i hk
        cases h
        exact hk
      · rename_i hk
        have hlt := length_next_lt hu hk
        exact ih (by omega) h

end Reckon.Cursor
