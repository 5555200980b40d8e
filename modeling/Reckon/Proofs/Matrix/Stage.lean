import Mathlib.Algebra.BigOperators.Field
import Mathlib.Algebra.Field.Rat
import Mathlib.Data.List.Perm.Basic
import Reckon.Proofs.Matrix.Determinant
import Reckon.Proofs.Matrix.Grid

/-!
# The stages of a reduction

A reduction to row-echelon form goes through stages.  At each of them some rows are finished, each with
the column of its pivot, others are still to do, and the columns before `lead` have been dealt with
(`Stage`).  A step takes the first column from there on in which a row that is to do has an entry that is
not negligible; it divides this row by the entry, clears the column in all other rows, and counts the row
as finished (`Stage.next?`).  The reduction is done when there is no such column (`Stage.final`).

What a step can do is said once (`Chosen`, `next?_cases`).  Two things hold whatever the entries are and
whatever counts as negligible.  The columns of the pivots are unit columns, and stand in increasing order
(`Pivoted`); and the same vectors are orthogonal to all rows (`annihilates_final`).  Not so for the entries
in front of a pivot, which were negligible when their column was passed over: they are zero if all of these
were (`Staircase`).
-/

namespace Reckon.Matrix

/-! ## The search for a pivot -/

section Search

variable {α : Type} [Scalar α] {eps : α} {rows : List (List α)}

/-- The entries that the search for a pivot compares with the threshold, in order: the columns from `lead`
on, the last of them down to the pivot. -/
def examined (eps : α) (rows : List (List α)) (lead : Nat) : Nat → List α
  | 0 => []
  | width + 1 =>
    match rows.findIdx? fun row => !Scalar.negligible eps (entry row lead) with
    | some i => (rows.take (i + 1)).map (entry · lead)
    | none => rows.map (entry · lead) ++ examined eps rows (lead + 1) width

/-- The search looks at whole columns up to that of the pivot, or all of them, and passes them over. -/
theorem findPivot?_passes (eps : α) (rows : List (List α)) (lead width : Nat) :
    ∀ row ∈ rows, ∀ c, lead ≤ c →
      c < ((findPivot? eps rows lead width).map Prod.fst).getD (lead + width) →
      Scalar.negligible eps (entry row c) = true ∧ entry row c ∈ examined eps rows lead width := by
  intro row hrow c hlead hc
  induction width generalizing lead with
  | zero => exact absurd hc (not_lt.2 hlead)
  | succ width ih =>
    rw [findPivot?] at hc
    cases hfound : rows.findIdx? fun row => !Scalar.negligible eps (entry row lead) with
    | some i =>
      rw [hfound] at hc
      exact absurd hc (not_lt.2 hlead)
    | none =>
      rw [hfound, show lead + (width + 1) = lead + 1 + width by omega] at hc
      rw [examined, hfound]
      rcases Nat.eq_or_lt_of_le hlead with rfl | hlead
      · refine ⟨?_, List.mem_append_left _ (List.mem_map_of_mem hrow)⟩
        simpa using List.findIdx?_eq_none_iff.1 hfound row hrow
      · obtain ⟨hneg, hmem⟩ := ih (lead + 1) hlead hc
        exact ⟨hneg, List.mem_append_right _ hmem⟩

/-- It passes over the rows above the pivot. -/
theorem findPivot?_above {lead width col i : Nat} (h : findPivot? eps rows lead width = some (col, i)) {j : Nat}
    (hj : j < rows.length) (hji : j < i) : Scalar.negligible eps (entry rows[j] col) = true := by
  induction width generalizing lead with
  | zero => cases h
  | succ width ih =>
    rw [findPivot?] at h
    cases hfound : rows.findIdx? fun row => !Scalar.negligible eps (entry row lead) with
    | some k =>
      rw [hfound] at h
      cases h
      obtain ⟨_, _, habove⟩ := List.findIdx?_eq_some_iff_getElem.1 hfound
      simpa using habove j hji
    | none =>
      rw [hfound] at h
      exact ih h

end Search

/-! ## Stages and steps -/

/-- The finished rows with the columns of their pivots, the rows still to do, and the column from which on
pivots are looked for. -/
structure Stage (α : Type) where
  finished : List (Nat × List α)
  todo : List (List α)
  lead : Nat

/-- A row divided by its entry in a column. -/
def normalized {α : Type} [Scalar α] (col : Nat) (row : List α) : List α :=
  row.map (· / entry row col)

namespace Stage

section Steps

variable {α : Type} [Scalar α] {eps : α} {width : Nat} {s s' : Stage α}

/-- All rows. -/
def rows (s : Stage α) : List (List α) :=
  s.finished.map (·.2) ++ s.todo

/-- The first stage. -/
def start (rows : List (List α)) : Stage α :=
  ⟨[], rows, 0⟩

/-- The stage after a row has been chosen for its entry in a column; the others are still to do. -/
def clear (s : Stage α) (col : Nat) (chosen : List α) (others : List (List α)) : Stage α where
  finished :=
    s.finished.map (fun p => (p.1, clearAt col (normalized col chosen) p.2)) ++
      [(col, normalized col chosen)]
  todo := others.map (clearAt col (normalized col chosen))
  lead := col + 1

/-- The next stage, if there is a pivot. -/
def next? (eps : α) (width : Nat) (s : Stage α) : Option (Stage α) :=
  match s.todo with
  | [] => none
  | first :: rest =>
    (findPivot? eps (first :: rest) s.lead (width - s.lead)).map fun found =>
      s.clear found.1 ((first :: rest).getD found.2 first) (((first :: rest).set found.2 first).drop 1)

/-- The last stage, if it is reached in so many steps. -/
def final (eps : α) (width : Nat) : Nat → Stage α → Stage α
  | 0, s => s
  | n + 1, s =>
    match s.next? eps width with
    | some s' => final eps width n s'
    | none => s

/-- The entries that are compared with the threshold in the search for a pivot. -/
def compared (eps : α) (width : Nat) (s : Stage α) : List α :=
  examined eps s.todo s.lead (width - s.lead)

theorem forall_finished_clear {col : Nat} {chosen : List α} {others : List (List α)}
    {P : Nat × List α → Prop} :
    (∀ p ∈ (s.clear col chosen others).finished, P p) ↔
      (∀ p ∈ s.finished, P (p.1, clearAt col (normalized col chosen) p.2)) ∧
        P (col, normalized col chosen) := by
  rw [clear, List.forall_mem_append, List.forall_mem_map, List.forall_mem_singleton]

theorem forall_todo_clear {col : Nat} {chosen : List α} {others : List (List α)} {P : List α → Prop} :
    (∀ row ∈ (s.clear col chosen others).todo, P row) ↔
      ∀ row ∈ others, P (clearAt col (normalized col chosen) row) := by
  rw [clear, List.forall_mem_map]

omit [Scalar α] in
theorem forall_rows {P : List α → Prop} :
    (∀ row ∈ s.rows, P row) ↔ (∀ p ∈ s.finished, P p.2) ∧ ∀ row ∈ s.todo, P row := by
  rw [rows, List.forall_mem_append, List.forall_mem_map]

theorem next?_of_nil (h : s.todo = []) : s.next? eps width = none := by
  rw [next?, h]

theorem next?_of_cons {first : List α} {rest : List (List α)} (h : s.todo = first :: rest) :
    s.next? eps width = (findPivot? eps (first :: rest) s.lead (width - s.lead)).map fun found =>
      s.clear found.1 ((first :: rest).getD found.2 first)
        (((first :: rest).set found.2 first).drop 1) := by
  rw [next?, h]

theorem final_succ_some {n : Nat} (h : s.next? eps width = some s') :
    s.final eps width (n + 1) = s'.final eps width n := by
  rw [final, h]

theorem final_of_none {n : Nat} (h : s.next? eps width = none) : s.final eps width n = s := by
  cases n with
  | zero => rfl
  | succ n => rw [final, h]

theorem reduceFrom_eq (n : Nat) (s : Stage α) :
    reduceFrom eps width n (s.finished.map (·.2)) s.todo s.lead = (s.final eps width n).rows := by
  induction n generalizing s with
  | zero => rfl
  | succ n ih =>
    cases htodo : s.todo with
    | nil =>
      rw [final_of_none (next?_of_nil htodo), rows, htodo]
      rfl
    | cons first rest =>
      have hnext : s.next? eps width = _ := next?_of_cons htodo
      rw [reduceFrom]
      cases hfound : findPivot? eps (first :: rest) s.lead (width - s.lead) with
      | none =>
        rw [hfound] at hnext
        rw [final_of_none hnext, rows, htodo]
      | some found =>
        rw [hfound] at hnext
        rw [final_succ_some hnext, ← ih]
        simp [clear, normalized, Function.comp_def]

/-- What is known when a row is chosen for its entry in a column. -/
structure Chosen (eps : α) (width : Nat) (s : Stage α) (col : Nat) (chosen : List α)
    (others : List (List α)) : Prop where
  lead_le : s.lead ≤ col
  col_lt : col < width
  pivot : Scalar.negligible eps (entry chosen col) = false
  perm : s.todo.Perm (chosen :: others)
  /-- It is the first row, or the first row is passed over. -/
  first : s.todo = chosen :: others ∨
    ∃ row rest, s.todo = row :: rest ∧ Scalar.negligible eps (entry row col) = true
  skipped : ∀ row ∈ s.todo, ∀ c, s.lead ≤ c → c < col →
    Scalar.negligible eps (entry row c) = true ∧ entry row c ∈ s.compared eps width

omit [Scalar α] in
/-- The first row in the place of the chosen one. -/
theorem exchange_perm {first : List α} {rest : List (List α)} {i : Nat} (hi : i < (first :: rest).length) :
    (first :: rest).Perm ((first :: rest)[i] :: ((first :: rest).set i first).drop 1) := by
  cases i with
  | zero => rfl
  | succ i =>
    have hi' : i < rest.length := Nat.lt_of_succ_lt_succ hi
    show (first :: rest).Perm (rest[i] :: rest.set i first)
    calc (first :: rest).Perm (first :: rest[i] :: rest.eraseIdx i) :=
          (List.getElem_cons_eraseIdx_perm hi').symm.cons first
      _ |>.Perm (rest[i] :: first :: rest.eraseIdx i) := List.Perm.swap _ _ _
      _ |>.Perm (rest[i] :: rest.set i first) := ((List.set_perm_cons_eraseIdx hi' first).symm).cons _

/-- What a step can do. -/
theorem next?_cases (h : s.next? eps width = some s') :
    ∃ col chosen others, Chosen eps width s col chosen others ∧ s' = s.clear col chosen others := by
  cases htodo : s.todo with
  | nil =>
    rw [next?_of_nil htodo] at h
    cases h
  | cons first rest =>
    rw [next?_of_cons htodo] at h
    obtain ⟨⟨col, i⟩, hfound, rfl⟩ := Option.map_eq_some_iff.1 h
    obtain ⟨hlead, hcol, hi, hpivot⟩ := Checked.findPivot?_eq_some hfound
    have hpassed := findPivot?_passes eps (first :: rest) s.lead (width - s.lead)
    have hchosen : (first :: rest).getD i first = (first :: rest)[i] := List.getD_eq_getElem _ _ hi
    refine ⟨col, _, _, ⟨hlead, by omega, ?_, ?_, ?_, ?_⟩, rfl⟩
    · rw [hchosen]
      exact hpivot
    · rw [hchosen, htodo]
      exact exchange_perm hi
    · cases i with
      | zero => exact .inl htodo
      | succ i =>
        exact .inr ⟨first, rest, htodo, findPivot?_above hfound (Nat.succ_pos _) (Nat.succ_pos i)⟩
    · rw [hfound] at hpassed
      rw [htodo, compared, htodo]
      exact hpassed

/-- Where there is no step, no entry is left that could be a pivot. -/
theorem negligible_of_next?_eq_none (h : s.next? eps width = none) :
    ∀ row ∈ s.todo, ∀ c, s.lead ≤ c → c < width →
      Scalar.negligible eps (entry row c) = true ∧ entry row c ∈ s.compared eps width := by
  intro row hrow c hlead hc
  cases htodo : s.todo with
  | nil =>
    rw [htodo] at hrow
    cases hrow
  | cons first rest =>
    have hpassed := findPivot?_passes eps (first :: rest) s.lead (width - s.lead)
    rw [next?_of_cons htodo, Option.map_eq_none_iff] at h
    rw [h] at hpassed
    rw [htodo] at hrow
    rw [compared, htodo]
    exact hpassed row hrow c hlead (show c < s.lead + (width - s.lead) by omega)

/-- A step finishes a row. -/
theorem Chosen.length_todo {col : Nat} {chosen : List α} {others : List (List α)}
    (h : Chosen eps width s col chosen others) :
    s.todo.length = (s.clear col chosen others).todo.length + 1 := by
  rw [h.perm.length_eq, clear, List.length_map, List.length_cons]

/-- What every step keeps holds at the end. -/
theorem final_keeps {P : Stage α → Prop}
    (hstep : ∀ {t col chosen others}, Chosen eps width t col chosen others → P t →
      P (t.clear col chosen others)) (n : Nat) (h : P s) : P (s.final eps width n) := by
  induction n generalizing s with
  | zero => exact h
  | succ n ih =>
    cases hnext : s.next? eps width with
    | none =>
      rw [final_of_none hnext]
      exact h
    | some s' =>
      obtain ⟨col, chosen, others, hchosen, rfl⟩ := next?_cases hnext
      rw [final_succ_some hnext]
      exact ih (hstep hchosen h)

end Steps

end Stage

/-! ## Entries after a step -/

variable {eps : ℚ} {width : Nat} {row pivotRow : List ℚ}

theorem entry_clearAt (h : row.length = pivotRow.length) (col c : Nat) :
    entry (clearAt col pivotRow row) c = entry row c - entry row col * entry pivotRow c := by
  by_cases hc : c < row.length
  · have hc' : c < pivotRow.length := h ▸ hc
    simp [clearAt, subtractScaled, entry, hc, hc']
  · have hc' : ¬c < pivotRow.length := h ▸ hc
    simp [clearAt, subtractScaled, entry, hc, hc', zero_eq]

theorem entry_normalized (col : Nat) (row : List ℚ) (c : Nat) :
    entry (normalized col row) c = entry row c / entry row col :=
  entry_map (zero_div _) row c

namespace Stage

variable {s : Stage ℚ} {col : Nat} {chosen : List ℚ} {others : List (List ℚ)}

theorem Chosen.pivot_ne_zero (h : Chosen eps width s col chosen others) (heps : 0 < eps) :
    entry chosen col ≠ 0 := by
  intro hzero
  have hsmall : Scalar.negligible eps (entry chosen col) = true :=
    negligible_iff.2 (by rw [hzero, abs_zero]; exact heps)
  rw [h.pivot] at hsmall
  cases hsmall

theorem Chosen.chosen_mem (h : Chosen eps width s col chosen others) : chosen ∈ s.todo :=
  h.perm.mem_iff.2 List.mem_cons_self

theorem Chosen.mem_of_mem_others (h : Chosen eps width s col chosen others) (hrow : row ∈ others) :
    row ∈ s.todo :=
  h.perm.mem_iff.2 (List.mem_cons_of_mem _ hrow)

/-! ## Pivots stand alone -/

/-- The columns of the pivots are unit columns, in increasing order. -/
structure Pivoted (width : Nat) (s : Stage ℚ) : Prop where
  length_eq : ∀ row ∈ s.rows, row.length = width
  lt_lead : ∀ p ∈ s.finished, p.1 < s.lead
  increasing : s.finished.Pairwise fun p q => p.1 < q.1
  one : ∀ p ∈ s.finished, entry p.2 p.1 = 1
  alone : s.finished.Pairwise fun p q => entry p.2 q.1 = 0 ∧ entry q.2 p.1 = 0
  below : ∀ p ∈ s.finished, ∀ row ∈ s.todo, entry row p.1 = 0

theorem Pivoted.length_finished (h : Pivoted width s) {p : Nat × List ℚ} (hp : p ∈ s.finished) :
    p.2.length = width :=
  h.length_eq _ (List.mem_append_left _ (List.mem_map_of_mem hp))

theorem Pivoted.length_todo (h : Pivoted width s) (hrow : row ∈ s.todo) : row.length = width :=
  h.length_eq _ (List.mem_append_right _ hrow)

theorem pivoted_start {rows : List (List ℚ)} (h : ∀ row ∈ rows, row.length = width) :
    Pivoted width (start rows) := by
  refine ⟨h, ?_, .nil, ?_, .nil, ?_⟩ <;> intro p hp <;> cases hp

section Clear

variable (h : Pivoted width s) (hchosen : Chosen eps width s col chosen others)

include h hchosen

theorem length_normalized : (normalized col chosen).length = width := by
  rw [normalized, List.length_map, h.length_todo hchosen.chosen_mem]

theorem length_cleared (hrow : row.length = width) :
    (clearAt col (normalized col chosen) row).length = width :=
  (Checked.length_subtractScaled (hrow.trans (length_normalized h hchosen).symm) _).trans hrow

theorem entry_cleared (hrow : row.length = width) (c : Nat) :
    entry (clearAt col (normalized col chosen) row) c =
      entry row c - entry row col * entry (normalized col chosen) c :=
  entry_clearAt (hrow.trans (length_normalized h hchosen).symm) col c

/-- The chosen row has nothing in the columns of earlier pivots. -/
theorem normalized_finished {p : Nat × List ℚ} (hp : p ∈ s.finished) :
    entry (normalized col chosen) p.1 = 0 := by
  rw [entry_normalized, h.below p hp _ hchosen.chosen_mem, zero_div]

/-- So these columns are not touched. -/
theorem cleared_finished (hrow : row.length = width) {p : Nat × List ℚ} (hp : p ∈ s.finished) :
    entry (clearAt col (normalized col chosen) row) p.1 = entry row p.1 := by
  rw [entry_cleared h hchosen hrow, normalized_finished h hchosen hp, mul_zero, sub_zero]

variable (heps : 0 < eps)

include heps

omit h in
theorem normalized_pivot : entry (normalized col chosen) col = 1 := by
  rw [entry_normalized, div_self (hchosen.pivot_ne_zero heps)]

/-- The column of the new pivot is cleared. -/
theorem cleared_pivot (hrow : row.length = width) :
    entry (clearAt col (normalized col chosen) row) col = 0 := by
  rw [entry_cleared h hchosen hrow, normalized_pivot hchosen heps, mul_one, sub_self]

/-- A step adds a unit column behind those that there are. -/
theorem Pivoted.clear : Pivoted width (s.clear col chosen others) where
  length_eq := by
    refine forall_rows.2 ⟨forall_finished_clear.2 ⟨fun p hp => ?_, ?_⟩, forall_todo_clear.2 fun r hr => ?_⟩
    · exact length_cleared h hchosen (h.length_finished hp)
    · exact length_normalized h hchosen
    · exact length_cleared h hchosen (h.length_todo (hchosen.mem_of_mem_others hr))
  lt_lead := by
    refine forall_finished_clear.2 ⟨fun p hp => ?_, Nat.lt_succ_self col⟩
    exact (h.lt_lead p hp).trans_le (hchosen.lead_le.trans (Nat.le_succ col))
  increasing := by
    refine List.pairwise_append.2 ⟨List.pairwise_map.2 h.increasing, List.pairwise_singleton _ _, ?_⟩
    refine List.forall_mem_map.2 fun p hp => List.forall_mem_singleton.2 ?_
    exact (h.lt_lead p hp).trans_le hchosen.lead_le
  one := by
    refine forall_finished_clear.2 ⟨fun p hp => ?_, normalized_pivot hchosen heps⟩
    exact (cleared_finished h hchosen (h.length_finished hp) hp).trans (h.one p hp)
  alone := by
    refine List.pairwise_append.2 ⟨List.pairwise_map.2 ?_, List.pairwise_singleton _ _, ?_⟩
    · refine h.alone.imp_of_mem fun hp hq hpq => ?_
      rw [cleared_finished h hchosen (h.length_finished hp) hq,
        cleared_finished h hchosen (h.length_finished hq) hp]
      exact hpq
    · refine List.forall_mem_map.2 fun p hp => List.forall_mem_singleton.2 ?_
      show _ ∧ entry (normalized col chosen) p.1 = 0
      exact ⟨cleared_pivot h hchosen heps (h.length_finished hp), normalized_finished h hchosen hp⟩
  below := by
    refine forall_finished_clear.2 ⟨fun p hp => ?_, ?_⟩ <;> refine forall_todo_clear.2 fun r hr => ?_
    · have hr' := hchosen.mem_of_mem_others hr
      exact (cleared_finished h hchosen (h.length_todo hr') hp).trans (h.below p hp r hr')
    · exact cleared_pivot h hchosen heps (h.length_todo (hchosen.mem_of_mem_others hr))

end Clear

theorem Pivoted.final (h : Pivoted width s) (heps : 0 < eps) (n : Nat) :
    Pivoted width (s.final eps width n) :=
  final_keeps (fun hchosen ht => ht.clear hchosen heps) n h

/-! ## Nothing in front of a pivot -/

/-- Finished rows have nothing in front of their pivots, and the others nothing before the columns in which
pivots are looked for. -/
structure Staircase (s : Stage ℚ) : Prop where
  front : ∀ p ∈ s.finished, ∀ c < p.1, entry p.2 c = 0
  below : ∀ row ∈ s.todo, ∀ c < s.lead, entry row c = 0

theorem staircase_start (rows : List (List ℚ)) : Staircase (start rows) :=
  ⟨fun _ hp => absurd hp List.not_mem_nil, fun _ _ c hc => absurd hc (Nat.not_lt_zero c)⟩

/-- Rows to do have nothing before a column if those that are passed over on the way to it are zero. -/
theorem Staircase.before (hs : Staircase s)
    (hskipped : ∀ row ∈ s.todo, ∀ c, s.lead ≤ c → c < col → entry row c = 0) :
    ∀ row ∈ s.todo, ∀ c < col, entry row c = 0 := by
  intro row hrow c hc
  by_cases hlead : c < s.lead
  · exact hs.below row hrow c hlead
  · exact hskipped row hrow c (not_lt.1 hlead) hc

/-- Rows to do are zero if all columns are passed over that are left. -/
theorem Staircase.todo_eq_zero (hs : Staircase s) (h : Pivoted width s)
    (hskipped : ∀ row ∈ s.todo, ∀ c, s.lead ≤ c → c < width → entry row c = 0) :
    ∀ row ∈ s.todo, ∀ c, entry row c = 0 := by
  intro row hrow c
  by_cases hc : c < width
  · exact hs.before hskipped row hrow c hc
  · exact entry_of_le (by rw [h.length_todo hrow]; exact not_lt.1 hc)

/-- A step goes on like that if the columns that it passes over are zero. -/
theorem Staircase.clear (hs : Staircase s) (h : Pivoted width s)
    (hchosen : Chosen eps width s col chosen others) (heps : 0 < eps)
    (hskipped : ∀ row ∈ s.todo, ∀ c, s.lead ≤ c → c < col → entry row c = 0) :
    Staircase (s.clear col chosen others) := by
  have hbefore := hs.before hskipped
  have hnormal : ∀ c < col, entry (normalized col chosen) c = 0 := by
    intro c hc
    rw [entry_normalized, hbefore _ hchosen.chosen_mem c hc, zero_div]
  constructor
  · refine forall_finished_clear.2 ⟨fun p hp c hc => ?_, hnormal⟩
    have hcol : c < col := hc.trans ((h.lt_lead p hp).trans_le hchosen.lead_le)
    rw [entry_cleared h hchosen (h.length_finished hp), hs.front p hp c hc, hnormal c hcol, mul_zero,
      sub_zero]
  · refine forall_todo_clear.2 fun r hr c hc => ?_
    have hr' := hchosen.mem_of_mem_others hr
    rcases Nat.lt_succ_iff_lt_or_eq.1 hc with hc | rfl
    · rw [entry_cleared h hchosen (h.length_todo hr'), hbefore r hr' c hc, hnormal c hc, mul_zero, sub_zero]
    · exact cleared_pivot h hchosen heps (h.length_todo hr')

/-! ## Orthogonal vectors -/

/-- The vector is orthogonal to the row. -/
def Annihilates (v : Fin width → ℚ) (row : List ℚ) : Prop :=
  ∑ j : Fin width, entry row j * v j = 0

/-- A multiple of the pivot row makes no difference where that row is orthogonal. -/
theorem annihilates_cleared (h : Pivoted width s) (hchosen : Chosen eps width s col chosen others)
    {v : Fin width → ℚ} (hv : Annihilates v (normalized col chosen)) (hrow : row.length = width) :
    Annihilates v (clearAt col (normalized col chosen) row) ↔ Annihilates v row := by
  have hsum : ∑ j : Fin width, entry (clearAt col (normalized col chosen) row) j * v j =
      ∑ j : Fin width, entry row j * v j - entry row col * ∑ j : Fin width, entry (normalized col chosen) j * v j := by
    rw [Finset.mul_sum, ← Finset.sum_sub_distrib]
    refine Finset.sum_congr rfl fun j _ => ?_
    rw [entry_cleared h hchosen hrow]
    ring
  rw [Annihilates, hsum, hv, mul_zero, sub_zero]
  rfl

/-- Nor does it to divide by the pivot. -/
theorem annihilates_normalized (hchosen : Chosen eps width s col chosen others) (heps : 0 < eps)
    {v : Fin width → ℚ} : Annihilates v (normalized col chosen) ↔ Annihilates v chosen := by
  have hsum : ∑ j : Fin width, entry (normalized col chosen) j * v j =
      (∑ j : Fin width, entry chosen j * v j) / entry chosen col := by
    rw [Finset.sum_div]
    refine Finset.sum_congr rfl fun j _ => ?_
    rw [entry_normalized]
    ring
  rw [Annihilates, hsum, div_eq_zero_iff, or_iff_left (hchosen.pivot_ne_zero heps)]
  rfl

theorem annihilates_clear (h : Pivoted width s) (hchosen : Chosen eps width s col chosen others)
    (heps : 0 < eps) {v : Fin width → ℚ} :
    (∀ row ∈ (s.clear col chosen others).rows, Annihilates v row) ↔ ∀ row ∈ s.rows, Annihilates v row := by
  have htodo : (∀ row ∈ s.todo, Annihilates v row) ↔
      Annihilates v chosen ∧ ∀ row ∈ others, Annihilates v row := by
    rw [← List.forall_mem_cons]
    exact forall_congr' fun row => by rw [hchosen.perm.mem_iff]
  rw [forall_rows, forall_finished_clear, forall_todo_clear, forall_rows, htodo]
  dsimp only
  rw [annihilates_normalized hchosen heps]
  by_cases hv : Annihilates v chosen
  · have hclear : ∀ row : List ℚ, row.length = width →
        (Annihilates v (clearAt col (normalized col chosen) row) ↔ Annihilates v row) := fun row =>
      annihilates_cleared h hchosen ((annihilates_normalized hchosen heps).2 hv)
    have hfinished : (∀ p ∈ s.finished, Annihilates v (clearAt col (normalized col chosen) p.2)) ↔
        ∀ p ∈ s.finished, Annihilates v p.2 :=
      forall₂_congr fun p hp => hclear p.2 (h.length_finished hp)
    have hothers : (∀ row ∈ others, Annihilates v (clearAt col (normalized col chosen) row)) ↔
        ∀ row ∈ others, Annihilates v row :=
      forall₂_congr fun row hrow => hclear row (h.length_todo (hchosen.mem_of_mem_others hrow))
    rw [hfinished, hothers]
    tauto
  · tauto

/-- The rows at the end are orthogonal to the same vectors. -/
theorem annihilates_final (h : Pivoted width s) (heps : 0 < eps) (n : Nat) {v : Fin width → ℚ} :
    (∀ row ∈ (s.final eps width n).rows, Annihilates v row) ↔ ∀ row ∈ s.rows, Annihilates v row := by
  let P (t : Stage ℚ) : Prop :=
    Pivoted width t ∧ ((∀ row ∈ t.rows, Annihilates v row) ↔ ∀ row ∈ s.rows, Annihilates v row)
  have hkept : P (s.final eps width n) := by
    refine final_keeps (fun hchosen ht => ?_) n ⟨h, Iff.rfl⟩
    exact ⟨ht.1.clear hchosen heps, (annihilates_clear ht.1 hchosen heps).trans ht.2⟩
  exact hkept.2

end Stage

end Reckon.Matrix
