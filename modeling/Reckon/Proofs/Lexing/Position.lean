import Mathlib.Data.List.DropRight
import Reckon.Token.Cursor

/-!
# Lines and columns

An offset of a text is on a line and at a column (`Text.lineAt`, `Text.columnAt`), and these can be read
off the characters before it.  A cursor does not look back: it counts while it moves.  What it has counted
is nevertheless what stands before it (`Cursor.Counts`), from the start of a text on and after every
step.

An offset never points past its line by more than one column (`Text.columnAt_le`): the place behind the
last character of a line is where its newline stands, or the end of the text.
-/

namespace Reckon

/-- The second token stands right behind the first. -/
def Token.Touches (t u : Token) : Prop :=
  u.span.startLine = t.span.endLine ∧ u.span.startCol = t.span.endCol + 1

namespace Text

/-- The line that an offset of a text is on, from one. -/
def lineAt (source : List Char) (p : Nat) : Nat :=
  1 + (source.take p).count '\n'

/-- The column of an offset of a text, from one: one more than the number of characters between it and
the last newline before it. -/
def columnAt (source : List Char) (p : Nat) : Nat :=
  1 + ((source.take p).rtakeWhile (· != '\n')).length

/-- The pieces of a text between its newlines. -/
def lines (source : List Char) : List (List Char) :=
  source.splitOn '\n'

theorem length_lines (source : List Char) : (lines source).length = 1 + source.count '\n' := by
  unfold lines
  induction source with
  | nil => rfl
  | cons c cs ih =>
    rw [List.splitOn_cons_eq_if_modifyHead, List.count_cons]
    split
    · rw [List.length_cons, ih]
      omega
    · rw [List.length_modifyHead, ih]
      omega

theorem lineAt_le (source : List Char) (p : Nat) : lineAt source p ≤ 1 + source.count '\n' := by
  have hsub := (List.take_sublist p source).count_le '\n'
  unfold lineAt
  omega

/-- Text without a newline is all on the first line. -/
theorem exists_first_line {start : List Char} (h : '\n' ∉ start) (rest : List Char) :
    ∃ line more, lines (start ++ rest) = line :: more ∧ start.length ≤ line.length := by
  induction start with
  | nil =>
    obtain ⟨line, more, hlines⟩ := List.exists_cons_of_ne_nil (List.splitOn_ne_nil '\n' rest)
    exact ⟨line, more, hlines, Nat.zero_le _⟩
  | cons c start ih =>
    obtain ⟨line, more, hlines, hle⟩ := ih fun hmem => h (List.mem_cons_of_mem c hmem)
    have hc : ¬ (c == '\n') = true := by
      rw [beq_iff_eq]
      rintro rfl
      exact h List.mem_cons_self
    refine ⟨c :: line, more, ?_, Nat.succ_le_succ hle⟩
    unfold lines at hlines ⊢
    rw [List.cons_append, List.splitOn_cons_eq_if_modifyHead, if_neg hc, hlines]
    rfl

/-- What stands before a place and after the last newline is on the line of that place. -/
theorem exists_line (before after : List Char) :
    ∃ line, (lines (before ++ after))[before.count '\n']? = some line ∧
      (before.rtakeWhile (· != '\n')).length ≤ line.length := by
  have hsplit : before.rdropWhile (· != '\n') ++ before.rtakeWhile (· != '\n') = before :=
    List.rdropWhile_append_rtakeWhile
  have hnone : '\n' ∉ before.rtakeWhile (· != '\n') := by
    intro hmem
    have hne := List.mem_rtakeWhile_imp hmem
    simp at hne
  have hlast := List.rdropWhile_last_not (fun c => c != '\n') before
  generalize before.rtakeWhile (· != '\n') = passed at hsplit hnone ⊢
  generalize before.rdropWhile (· != '\n') = earlier at hsplit hlast
  obtain ⟨line, more, hlines, hle⟩ := exists_first_line hnone after
  refine ⟨line, ?_, hle⟩
  rcases List.eq_nil_or_concat' earlier with rfl | ⟨init, c, rfl⟩
  · rw [← hsplit, List.nil_append, List.count_eq_zero_of_not_mem hnone, hlines]
    rfl
  · -- The earlier lines end with a newline, and the text is cut there.
    have hc : c = '\n' := by simpa using hlast (by simp)
    subst hc
    have hcount : before.count '\n' = (lines init).length := by
      rw [← hsplit, length_lines, List.count_append, List.count_append,
        List.count_eq_zero_of_not_mem hnone]
      simp [Nat.add_comm]
    have hcut : lines (before ++ after) = lines init ++ lines (passed ++ after) := by
      rw [← hsplit, List.append_assoc, List.append_assoc]
      exact List.splitOn_append_cons_self init (passed ++ after)
    rw [hcut, hcount, List.getElem?_append_right (Nat.le_refl _), Nat.sub_self, hlines]
    rfl

/-- An offset is on a line of the text, at most one column behind its last character. -/
theorem columnAt_le (source : List Char) (p : Nat) :
    ∃ line, (lines source)[lineAt source p - 1]? = some line ∧
      columnAt source p ≤ line.length + 1 := by
  obtain ⟨line, hline, hle⟩ := exists_line (source.take p) (source.drop p)
  rw [List.take_append_drop] at hline
  have hindex : lineAt source p - 1 = (source.take p).count '\n' := by
    rw [lineAt]
    omega
  refine ⟨line, hindex ▸ hline, ?_⟩
  rw [columnAt]
  omega

end Text

/-! ## Cursors count right -/

namespace Cursor

/-- The cursor stands in this text, and its numbers are those of the characters before it. -/
structure Counts (source : List Char) (c : Cursor) : Prop where
  text : c.before.reverse ++ c.after = source
  pos : c.pos = c.before.length
  line : c.line = 1 + c.before.count '\n'
  col : c.col = 1 + (c.before.takeWhile (· != '\n')).length

variable {source : List Char} {c : Cursor}

theorem counts_start (source : List Char) : Counts source (start source) :=
  ⟨rfl, rfl, rfl, rfl⟩

namespace Counts

theorem step (h : Counts source c) : Counts source c.step := by
  have htext := (step_text c).trans h.text
  unfold Cursor.step at htext ⊢
  split
  · exact h
  · rename_i x r hx
    rw [hx] at htext
    dsimp only at htext
    split
    · rename_i hnewline
      rw [if_pos hnewline] at htext
      refine ⟨htext, congrArg (· + 1) h.pos, ?_, ?_⟩
      · simp [h.line, hnewline, Nat.add_assoc]
      · simp [hnewline]
    · rename_i hother
      rw [if_neg hother] at htext
      refine ⟨htext, congrArg (· + 1) h.pos, ?_, ?_⟩
      · simp [h.line, hother]
      · simp [h.col, hother, Nat.add_assoc]

theorem advance (h : Counts source c) (n : Nat) : Counts source (c.advance n) := by
  induction n generalizing c with
  | zero => exact h
  | succ n ih => exact ih h.step

theorem skipBlanks (h : Counts source c) : Counts source c.skipBlanks :=
  h.advance _

theorem take_pos (h : Counts source c) : source.take c.pos = c.before.reverse := by
  rw [← h.text, h.pos, List.take_left' (List.length_reverse)]

theorem after_eq (h : Counts source c) : c.after = source.drop c.pos := by
  rw [← h.text, h.pos, List.drop_left' (List.length_reverse)]

theorem line_eq (h : Counts source c) : c.line = Text.lineAt source c.pos := by
  rw [Text.lineAt, h.take_pos, List.count_reverse, h.line]

theorem col_eq (h : Counts source c) : c.col = Text.columnAt source c.pos := by
  rw [Text.columnAt, h.take_pos, List.rtakeWhile_reverse, List.length_reverse, h.col]

end Counts

/-- The offset counts the characters that are passed. -/
theorem pos_advance {n : Nat} (hn : n ≤ c.after.length) : (c.advance n).pos = c.pos + n := by
  induction n generalizing c with
  | zero => rfl
  | succ n ih =>
    obtain ⟨x, r, hx⟩ := List.exists_cons_of_length_pos (by omega : 0 < c.after.length)
    have hstep : c.step.pos = c.pos + 1 := by
      unfold step
      rw [hx]
      dsimp only
      split <;> rfl
    have hlength : n ≤ c.step.after.length := by
      rw [step_after, List.length_drop]
      omega
    rw [advance_succ, ih hlength, hstep]
    omega

/-! ## Columns on one line, and spans of tokens -/

variable {r : List Char}

theorem step_col_pos (hc : 1 ≤ c.col) : 1 ≤ c.step.col := by
  unfold step
  split
  · exact hc
  · split
    · exact Nat.le_refl 1
    · exact Nat.le_succ_of_le hc

theorem advance_col_pos (n : Nat) (hc : 1 ≤ c.col) : 1 ≤ (c.advance n).col := by
  induction n generalizing c with
  | zero => exact hc
  | succ n ih => exact ih (step_col_pos hc)

/-- On one line the columns count the characters. -/
theorem advance_col {cs : List Char} (h : c.after = cs ++ r) (hn : '\n' ∉ cs) :
    (c.advance cs.length).col = c.col + cs.length ∧ (c.advance cs.length).line = c.line := by
  induction cs generalizing c with
  | nil => exact ⟨rfl, rfl⟩
  | cons x cs ih =>
    have hx : x ≠ '\n' := fun hx => hn (by rw [hx]; exact List.mem_cons_self)
    have hs : c.step = ⟨x :: c.before, cs ++ r, c.pos + 1, c.line, c.col + 1⟩ := by
      unfold step
      rw [h]
      simp only [List.cons_append]
      rw [if_neg hx]
    have hstep := ih (c := c.step) (by rw [hs]) (fun hm => hn (List.mem_cons_of_mem x hm))
    rw [List.length_cons, advance_succ]
    rw [hs] at hstep ⊢
    exact ⟨by rw [hstep.1]; simp only; omega, hstep.2⟩

theorem token_start (file : String) (k : Token.Kind) (cs : List Char) (c d : Cursor) :
    (token file k cs c d).span.startLine = c.line ∧ (token file k cs c d).span.startCol = c.col := by
  unfold token
  dsimp only
  split <;> exact ⟨rfl, rfl⟩

theorem token_end (file : String) {k : Token.Kind} (hk : k ≠ .newline) (cs : List Char)
    (c d : Cursor) :
    (token file k cs c d).span.endLine = d.line ∧
      (token file k cs c d).span.endCol = (max 1 (d.col - 1) : Nat) := by
  unfold token
  dsimp only
  rw [if_neg hk]
  exact ⟨rfl, rfl⟩

end Cursor

end Reckon
