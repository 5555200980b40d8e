import Reckon.Proofs.Lexing.Position
import Reckon.Text.Lines

/-!
# Lines and rows

Places count lines by newlines (`Text.lines`), a screen shows rows that end at other characters as well
(`Text.splitLinesFrom`).  Counting comes to the same as long as every line is one row with its newline
(`OneRow`), which a carriage return right before the newline does not change.  The row with the number
of a line then starts where the line starts, and ends at the first character that ends a row
(`row_of_line`); so it is the line itself if no character in the line does.
-/

namespace Reckon.Text

/-- No character of the line ends a row. -/
def EndFree (line : List Char) : Prop :=
  ∀ c ∈ line, isLineEnd c = false

instance (line : List Char) : Decidable (EndFree line) :=
  inferInstanceAs (Decidable (∀ c ∈ line, isLineEnd c = false))

/-- The line and its newline are one row: nothing before the newline ends one, except for a carriage
return, which ends it together with the newline. -/
def OneRow (line : List Char) : Prop :=
  EndFree line ∨ ∃ start, EndFree start ∧ line = start ++ ['\r']

/-- The line up to the first character that ends a row. -/
def firstRow (line : List Char) : List Char :=
  line.takeWhile fun c => !isLineEnd c

variable {row cs line start rest : List Char} {c : Char}

/-! ## What ends a row -/

theorem splitLinesFrom_cons (h : isLineEnd c = false) (row cs : List Char) :
    splitLinesFrom row (c :: cs) = splitLinesFrom (c :: row) cs := by
  have hc : c ≠ '\r' := by
    rintro rfl
    exact absurd h (by decide)
  rw [splitLinesFrom.eq_3 _ _ _ fun _ hcr _ => hc hcr, h]
  rfl

theorem splitLinesFrom_append (h : EndFree start) (row rest : List Char) :
    splitLinesFrom row (start ++ rest) = splitLinesFrom (start.reverse ++ row) rest := by
  induction start generalizing row with
  | nil => rfl
  | cons c start ih =>
    obtain ⟨hc, hstart⟩ := List.forall_mem_cons.1 h
    rw [List.cons_append, splitLinesFrom_cons hc, ih hstart, List.reverse_cons, List.append_assoc]
    rfl

theorem splitLinesFrom_newline (row rest : List Char) :
    splitLinesFrom row ('\n' :: rest) = row.reverse :: splitLinesFrom [] rest := by
  rw [splitLinesFrom.eq_3 _ _ _ fun _ hcr _ => absurd hcr (by decide)]
  rfl

theorem firstRow_eq_self_iff : firstRow line = line ↔ EndFree line := by
  unfold firstRow
  rw [List.takeWhile_eq_self_iff]
  simp only [Bool.not_eq_true', EndFree]

theorem firstRow_append_newline (line rest : List Char) :
    firstRow (line ++ '\n' :: rest) = firstRow line := by
  unfold firstRow
  induction line with
  | nil => rfl
  | cons c line ih => rw [List.cons_append, List.takeWhile_cons, List.takeWhile_cons, ih]

/-- A line that is one row, and then the others. -/
theorem splitLinesFrom_of_oneRow (h : OneRow line) (rest : List Char) :
    splitLinesFrom [] (line ++ '\n' :: rest) = firstRow line :: splitLinesFrom [] rest := by
  rcases h with hfree | ⟨start, hfree, rfl⟩
  · rw [splitLinesFrom_append hfree, splitLinesFrom_newline, firstRow_eq_self_iff.2 hfree,
      List.append_nil, List.reverse_reverse]
  · have hrow : firstRow (start ++ ['\r']) = start := by
      unfold firstRow
      rw [List.takeWhile_append_of_pos fun c hc => by rw [hfree c hc]; rfl]
      exact List.append_nil start
    rw [hrow, List.append_assoc, splitLinesFrom_append hfree, List.singleton_append,
      splitLinesFrom.eq_2, List.append_nil, List.reverse_reverse]

/-- The first row of a text that is not empty. -/
theorem head?_splitLinesFrom (h : row ++ cs ≠ []) :
    (splitLinesFrom row cs).head? = some (row.reverse ++ firstRow cs) := by
  fun_induction splitLinesFrom row cs with
  | case1 row hempty => exact absurd (by simpa using hempty) h
  | case2 row hrow => simp [firstRow]
  | case3 row rest ih => simp [firstRow, isLineEnd]
  | case4 row c rest hcr hend ih => simp [firstRow, hend]
  | case5 row c rest hcr hend ih =>
    rw [ih (by simp)]
    simp [firstRow, hend]

/-! ## The rows of lines -/

/-- A text is one line, or a line with a newline behind it and then the other lines. -/
theorem lines_cases (cs : List Char) :
    ('\n' ∉ cs ∧ lines cs = [cs]) ∨
      ∃ line rest, cs = line ++ '\n' :: rest ∧ '\n' ∉ line ∧ lines cs = line :: lines rest := by
  by_cases h : '\n' ∈ cs
  · obtain ⟨line, rest, rfl, hline⟩ := List.eq_append_cons_of_mem h
    exact .inr ⟨line, rest, rfl, hline, List.splitOn_append_cons_self_of_not_mem hline rest⟩
  · exact .inl ⟨h, List.splitOn_eq_singleton h⟩

/-- **The row with the number of a line.**  If every earlier line is one row, it is the line up to the
first character that ends a row.  There is none only for an empty line at the end of the text. -/
theorem row_of_line {n : Nat} (hline : (lines cs)[n]? = some line)
    (hearlier : ∀ l ∈ (lines cs).take n, OneRow l) :
    (splitLinesFrom [] cs)[n]? = some (firstRow line) ∨
      (splitLinesFrom [] cs)[n]? = none ∧ line = [] := by
  induction n generalizing cs with
  | zero =>
    by_cases hne : cs = []
    · subst hne
      rw [lines, List.splitOn_nil] at hline
      cases hline
      exact .inr ⟨rfl, rfl⟩
    · have hrow : firstRow cs = firstRow line := by
        rcases lines_cases cs with ⟨-, hlines⟩ | ⟨first, rest, rfl, -, hlines⟩
        · rw [hlines] at hline
          cases hline
          rfl
        · rw [hlines] at hline
          cases hline
          exact firstRow_append_newline line rest
      have hhead := head?_splitLinesFrom (show [] ++ cs ≠ [] from hne)
      rw [List.head?_eq_getElem?, hrow] at hhead
      exact .inl hhead
  | succ n ih =>
    rcases lines_cases cs with ⟨-, hlines⟩ | ⟨first, rest, rfl, -, hlines⟩
    · rw [hlines] at hline
      cases hline
    · rw [hlines] at hline hearlier
      obtain ⟨hfirst, hrest⟩ := List.forall_mem_cons.1 hearlier
      rw [splitLinesFrom_of_oneRow hfirst]
      exact ih hline hrest

/-- With earlier lines that are one row each, a line is shown as it is if and only if no character in it
ends a row. -/
theorem row_eq_line_iff {n : Nat} (hline : (lines cs)[n]? = some line)
    (hearlier : ∀ l ∈ (lines cs).take n, OneRow l) :
    ((splitLinesFrom [] cs)[n]? = some line ∨ (splitLinesFrom [] cs)[n]? = none ∧ line = []) ↔
      EndFree line := by
  rw [← firstRow_eq_self_iff]
  rcases row_of_line hline hearlier with hrow | ⟨hrow, rfl⟩
  · rw [hrow]
    simp
  · rw [hrow]
    simp [firstRow]

end Reckon.Text
