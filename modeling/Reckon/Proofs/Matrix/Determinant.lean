import Mathlib.Algebra.Order.Ring.Unbundled.Rat
import Mathlib.LinearAlgebra.Matrix.Determinant.Basic
import Reckon.Proofs.Matrix.Checked

/-!
# Elimination computes the determinant

Over the rationals, where nothing is rounded, `determinant` gives the determinant of its matrix
(`determinant_eq_det`), provided the threshold never takes an entry for zero that is not: in every column
that is looked at, the candidates for the pivot are all zero or one of them reaches the threshold.

Each step (`clearColumn?`) takes the greatest candidate for the pivot, clears the column below it and
goes on with the rows and columns that are left.  Two facts carry the whole run.  A step divides the
determinant by its pivot, with the sign of the exchange of rows: an exchange changes the sign
(`det_view_exchange`), to subtract a multiple of one row from others changes nothing, and then the first
column has one entry (`det_view_clearHead`).  Where there is no step the whole column is zero, because the
greatest candidate is negligible, and so is the determinant (`det_view_of_heads`).
-/

namespace Reckon.Matrix

/-! ## Column steps -/

section Steps

variable {α : Type} [Scalar α]

/-- What is left of the rows and columns at each column step, the first one included. -/
def columnSteps (eps : α) : Nat → List (List α) → List (List (List α))
  | 0, _ => []
  | n + 1, rows =>
    rows :: match clearColumn? eps rows with
      | some (_, _, left) => columnSteps eps n left
      | none => []

/-- The pivot row comes first, with the first row in its place. -/
theorem choosePivot_cases (first : List α) (rest : List (List α)) :
    (greatestFrom (headMagnitude first) 0 1 rest = 0 ∧
      choosePivot first rest = (first, rest, false)) ∨
    ∃ i, ∃ hi : i < rest.length, greatestFrom (headMagnitude first) 0 1 rest = i + 1 ∧
      choosePivot first rest = (rest[i], rest.set i first, true) := by
  have hlt := Checked.greatestFrom_lt (headMagnitude first) (show 0 < 1 by omega) rest
  unfold choosePivot
  cases hplace : greatestFrom (headMagnitude first) 0 1 rest with
  | zero => exact .inl ⟨rfl, rfl⟩
  | succ i =>
    have hi : i < rest.length := by omega
    have hget : rest.getD i first = rest[i] := by
      rw [List.getD_eq_getElem?_getD, List.getElem?_eq_getElem hi]
      rfl
    exact .inr ⟨i, hi, rfl, congrArg (·, rest.set i first, true) hget⟩

end Steps

/-! ## The greatest candidate -/

variable {eps : ℚ} {n : Nat} {rows : List (List ℚ)}

theorem magnitude_eq_abs (x : ℚ) : Scalar.magnitude x = |x| := by
  show (if x < 0 then -x else x) = |x|
  split
  · rename_i hx
    exact (abs_of_neg hx).symm
  · rename_i hx
    exact (abs_of_nonneg (not_lt.1 hx)).symm

theorem negligible_iff {x : ℚ} : Scalar.negligible eps x = true ↔ |x| < eps := by
  rw [← magnitude_eq_abs]
  exact decide_eq_true_iff

/-- The index that is found is the one so far or that of a later row, and no first entry is greater than
the one found there. -/
theorem greatestFrom_spec (best : ℚ) (place i : Nat) (rows : List (List ℚ)) :
    (greatestFrom best place i rows = place ∧ ∀ row ∈ rows, headMagnitude row ≤ best) ∨
    ∃ k, ∃ hk : k < rows.length, greatestFrom best place i rows = i + k ∧
      best ≤ headMagnitude rows[k] ∧ ∀ row ∈ rows, headMagnitude row ≤ headMagnitude rows[k] := by
  induction rows generalizing best place i with
  | nil => exact .inl ⟨rfl, fun row hrow => absurd hrow List.not_mem_nil⟩
  | cons row rest ih =>
    by_cases hlt : best < headMagnitude row
    · have hstep : greatestFrom best place i (row :: rest) =
          greatestFrom (headMagnitude row) i (i + 1) rest := if_pos (decide_eq_true hlt)
      rw [hstep]
      rcases ih (headMagnitude row) i (i + 1) with ⟨hplace, hle⟩ | ⟨k, hk, hplace, hbest, hle⟩
      · exact .inr ⟨0, Nat.succ_pos _, hplace, hlt.le, List.forall_mem_cons.2 ⟨le_refl _, hle⟩⟩
      · refine .inr ⟨k + 1, Nat.succ_lt_succ hk, by omega, ?_, ?_⟩
        · exact hlt.le.trans hbest
        · exact List.forall_mem_cons.2 ⟨hbest, hle⟩
    · have hstep : greatestFrom best place i (row :: rest) =
          greatestFrom best place (i + 1) rest := if_neg (by simpa [Scalar.lt] using hlt)
      rw [hstep]
      rcases ih best place (i + 1) with ⟨hplace, hle⟩ | ⟨k, hk, hplace, hbest, hle⟩
      · exact .inl ⟨hplace, List.forall_mem_cons.2 ⟨not_lt.1 hlt, hle⟩⟩
      · refine .inr ⟨k + 1, Nat.succ_lt_succ hk, by omega, hbest, ?_⟩
        exact List.forall_mem_cons.2 ⟨(not_lt.1 hlt).trans hbest, hle⟩

/-- No candidate is greater than the first entry of the pivot row. -/
theorem headMagnitude_le_choosePivot (first : List ℚ) (rest : List (List ℚ)) :
    ∀ row ∈ first :: rest, headMagnitude row ≤ headMagnitude (choosePivot first rest).1 := by
  rcases choosePivot_cases first rest with ⟨hplace, hchosen⟩ | ⟨i, hi, hplace, hchosen⟩ <;>
    rcases greatestFrom_spec (headMagnitude first) 0 1 rest with ⟨hnone, hle⟩ | ⟨k, hk, hsome, hbest, hle⟩ <;>
    rw [hchosen]
  · exact List.forall_mem_cons.2 ⟨le_refl _, hle⟩
  · omega
  · omega
  · obtain rfl : k = i := by omega
    exact List.forall_mem_cons.2 ⟨hbest, hle⟩

/-! ## Rows as a matrix -/

/-- The square matrix of the first `n` entries of the first `n` rows. -/
def view (n : Nat) (rows : List (List ℚ)) :=
  Matrix.of fun i j : Fin n => (rows.getD i []).getD j 0

theorem view_apply (rows : List (List ℚ)) (i j : Fin n) :
    view n rows i j = (rows.getD i []).getD j 0 := rfl

/-- To exchange the first row with another one changes the sign of the determinant. -/
theorem det_view_exchange {first : List ℚ} {rest : List (List ℚ)} {i : Nat} (hi : i < rest.length)
    (hcount : rest.length = n) :
    (view (n + 1) (rest[i] :: rest.set i first)).det = -(view (n + 1) (first :: rest)).det := by
  have hrow : ∀ r : Fin (n + 1), (rest[i] :: rest.set i first).getD r [] =
      (first :: rest).getD (Equiv.swap 0 ⟨i + 1, by omega⟩ r : Fin (n + 1)) [] := by
    intro r
    by_cases hzero : r = 0
    · subst hzero
      simp [hi]
    · by_cases hplace : r = ⟨i + 1, by omega⟩
      · subst hplace
        simp [hi]
      · rw [Equiv.swap_apply_of_ne_of_ne hzero hplace]
        obtain ⟨k, rfl⟩ := Fin.exists_succ_eq.2 hzero
        have hne : i ≠ k := fun h => hplace (Fin.ext (by simp [h]))
        simp [hne]
  have hswap : view (n + 1) (rest[i] :: rest.set i first) =
      (view (n + 1) (first :: rest)).submatrix (Equiv.swap 0 ⟨i + 1, by omega⟩) id := by
    ext r c
    exact congrArg (·.getD c 0) (hrow r)
  rw [hswap, Matrix.det_permute, Equiv.Perm.sign_swap (by simp [Fin.ext_iff])]
  simp

/-- An entry of a row that was cleared. -/
theorem getD_clearHead {pivot : ℚ} {pivotTail row : List ℚ} (hrow : row.length = pivotTail.length + 1)
    {j : Nat} (hj : j < pivotTail.length) :
    (clearHead pivot pivotTail row).getD j 0 =
      row.getD (j + 1) 0 - row.getD 0 0 / pivot * pivotTail.getD j 0 := by
  cases row with
  | nil => cases hrow
  | cons x xs =>
    have hxs : j < xs.length := by simpa [← Nat.succ.inj hrow] using hj
    simp [clearHead, subtractScaled, hj, hxs]

/-- With the rows below the pivot cleared, the pivot is the one entry of the first column, and the
determinant is the pivot times that of what is left. -/
theorem det_view_clearHead {pivot : ℚ} (hpivot : pivot ≠ 0) {pivotTail : List ℚ}
    (htail : pivotTail.length = n) {others : List (List ℚ)} (hcount : others.length = n)
    (hothers : ∀ r ∈ others, r.length = n + 1) :
    (view (n + 1) ((pivot :: pivotTail) :: others)).det =
      pivot * (view n (others.map (clearHead pivot pivotTail))).det := by
  let A := view (n + 1) ((pivot :: pivotTail) :: others)
  let factor : Fin (n + 1) → ℚ := fun i => if i = 0 then 0 else A i 0 / pivot
  let B := Matrix.of fun i j => A i j - factor i * A 0 j
  have hpivotEntry : A 0 0 = pivot := rfl
  have hdet : B.det = A.det := by
    refine Matrix.det_eq_of_forall_row_eq_smul_add_const (fun i => -factor i) 0 (by simp [factor]) ?_
    intro i j
    show A i j - factor i * A 0 j = A i j + -factor i * A 0 j
    ring
  have hfirst : B 0 0 = pivot := by simp [B, factor, hpivotEntry]
  have hcolumn : ∀ i : Fin n, B i.succ 0 = 0 := by
    intro i
    simp [B, factor, hpivotEntry, hpivot]
  have hleft : B.submatrix Fin.succ Fin.succ = view n (others.map (clearHead pivot pivotTail)) := by
    ext i j
    have hi : (i : Nat) < others.length := by omega
    have hlength : others[(i : Nat)].length = pivotTail.length + 1 := by
      rw [hothers _ (List.getElem_mem hi), htail]
    have hrow : (others.map (clearHead pivot pivotTail)).getD i [] =
        clearHead pivot pivotTail others[(i : Nat)] := by simp [hi]
    have hbelow : ∀ k : Fin (n + 1), A i.succ k = others[(i : Nat)].getD k 0 := by
      intro k
      simp [A, view_apply, hi]
    rw [view_apply, hrow, getD_clearHead hlength (by omega)]
    show A i.succ j.succ - factor i.succ * A 0 j.succ = _
    rw [show factor i.succ = A i.succ 0 / pivot from if_neg (Fin.succ_ne_zero i), hbelow, hbelow]
    rfl
  rw [← hdet, Matrix.det_succ_column_zero, Fin.sum_univ_succ]
  simp [hcolumn, hfirst, hleft]

/-! ## A step, and where there is none -/

/-- The candidates for the pivot in the first column are all zero, or one of them reaches the
threshold. -/
def Decided (eps : ℚ) (rows : List (List ℚ)) : Prop :=
  (∀ row ∈ rows, row.headD 0 = 0) ∨ ∃ row ∈ rows, eps ≤ |row.headD 0|

instance (eps : ℚ) (rows : List (List ℚ)) : Decidable (Decided eps rows) :=
  inferInstanceAs (Decidable (_ ∨ _))

/-- The choice of the pivot: no candidate is greater, and the determinant keeps its value or changes its
sign. -/
theorem exists_pivot {first : List ℚ} {rest : List (List ℚ)} (hcount : rest.length = n)
    (hrows : ∀ r ∈ first :: rest, r.length = n + 1) :
    ∃ pivot pivotTail others exchanged,
      choosePivot first rest = (pivot :: pivotTail, others, exchanged) ∧
      (∀ row ∈ first :: rest, |row.headD 0| ≤ |pivot|) ∧
      pivotTail.length = n ∧ others.length = n ∧ (∀ r ∈ others, r.length = n + 1) ∧
      (view (n + 1) (first :: rest)).det =
        (if exchanged then -1 else 1) * (view (n + 1) ((pivot :: pivotTail) :: others)).det := by
  have hgreatest := headMagnitude_le_choosePivot first rest
  obtain ⟨-, hmem, hothers, hsub⟩ := Checked.choosePivot_spec first rest
  have hsign : (view (n + 1) (first :: rest)).det =
      (if (choosePivot first rest).2.2 then -1 else 1) *
        (view (n + 1) ((choosePivot first rest).1 :: (choosePivot first rest).2.1)).det := by
    rcases choosePivot_cases first rest with ⟨-, hchosen⟩ | ⟨i, hi, -, hchosen⟩ <;> rw [hchosen]
    · simp
    · simp [det_view_exchange hi hcount]
  rcases hchosen : choosePivot first rest with ⟨_ | ⟨x, xs⟩, others, exchanged⟩ <;>
    rw [hchosen] at hgreatest hmem hothers hsub hsign
  · cases hrows _ hmem
  · refine ⟨x, xs, others, exchanged, rfl, fun row hrow => ?_, Nat.succ.inj (hrows _ hmem),
      hothers.trans hcount, fun r hr => hrows r (hsub r hr), hsign⟩
    rw [← magnitude_eq_abs, ← magnitude_eq_abs]
    exact hgreatest row hrow

/-- A column whose entries are zero. -/
theorem det_view_of_heads (hcount : rows.length = n + 1) (h : ∀ row ∈ rows, row.headD 0 = 0) :
    (view (n + 1) rows).det = 0 := by
  refine Matrix.det_eq_zero_of_column_eq_zero 0 fun i => ?_
  have hi : (i : Nat) < rows.length := by omega
  have hhead := h _ (List.getElem_mem hi)
  simpa [view_apply, hi, List.head?_eq_getElem?] using hhead

/-! ## The whole run -/

/-- The product so far and the determinant of what is left: each step moves its pivot from the one to the
other. -/
theorem determinantFrom_eq_det (heps : 0 < eps) (acc : ℚ) (hcount : rows.length = n)
    (hrows : ∀ r ∈ rows, r.length = n) (hdecided : ∀ part ∈ columnSteps eps n rows, Decided eps part) :
    determinantFrom eps n acc rows = acc * (view n rows).det := by
  induction n generalizing acc rows with
  | zero => simp [determinantFrom]
  | succ n ih =>
    cases rows with
    | nil => cases hcount
    | cons first rest =>
      obtain ⟨pivot, pivotTail, others, exchanged, hchosen, hgreatest, htail, hothers, hlengths, hdet⟩ :=
        exists_pivot (Nat.succ.inj hcount) hrows
      obtain ⟨hhere, hlater⟩ := List.forall_mem_cons.1 hdecided
      rw [determinantFrom_cons hchosen]
      rw [clearColumn?_cons hchosen] at hlater
      simp only [negligible_iff] at hlater ⊢
      by_cases hsmall : |pivot| < eps
      · -- The greatest candidate is negligible, so none reaches the threshold.
        rw [if_pos hsmall]
        rcases hhere with hzero | ⟨row, hrow, hge⟩
        · rw [det_view_of_heads hcount hzero, mul_zero]
          rfl
        · exact absurd (hge.trans (hgreatest row hrow)) (not_le.2 hsmall)
      · have hpivot : pivot ≠ 0 := by
          rintro rfl
          exact hsmall (by simpa using heps)
        rw [if_neg hsmall] at hlater ⊢
        have hleft : ∀ r ∈ others.map (clearHead pivot pivotTail), r.length = n := by
          intro r hr
          obtain ⟨row, hrow, rfl⟩ := List.mem_map.1 hr
          rw [Checked.length_clearHead (by rw [hlengths row hrow, htail]), htail]
        rw [ih _ ((List.length_map _).trans hothers) hleft hlater, hdet,
          det_view_clearHead hpivot htail hothers hlengths]
        cases exchanged
        · simp only [Bool.false_eq_true, if_false]
          ring
        · simp only [if_true]
          ring

/-- **Elimination computes the determinant.** -/
theorem determinant_eq_det (heps : 0 < eps) {m : Matrix ℚ} (hsquare : m.isSquare = true)
    (hdecided : ∀ part ∈ columnSteps eps m.rowCount m.rows, Decided eps part) :
    m.determinant eps = (view m.rowCount m.rows).det := by
  have hcol : (m.rowCount : Int) = m.colCount := by simpa [isSquare] using hsquare
  have hrows : ∀ r ∈ m.rows, r.length = m.rowCount := by
    intro r hr
    have hlength := m.row_length r hr
    omega
  exact (determinantFrom_eq_det heps 1 rfl hrows hdecided).trans (one_mul _)

/-- A matrix whose first pivot stands in the last row, with an entry that becomes zero on the way. -/
theorem determinant_eq_det_exchanged :
    (0 : ℚ) < 1 / 1000000000000 ∧
    (∀ part ∈ columnSteps (1 / 1000000000000 : ℚ) 3 [[0, 2, 1], [1, 3, 1 / 2], [2, 6, 5]],
      Decided (1 / 1000000000000) part) ∧
    ∃ m : Matrix ℚ, m.rows = [[0, 2, 1], [1, 3, 1 / 2], [2, 6, 5]] ∧ m.isSquare = true ∧
      m.determinant (1 / 1000000000000) = -8 ∧
      m.determinant (1 / 1000000000000) = (view 3 m.rows).det := by
  have hsteps : ∀ part ∈ columnSteps (1 / 1000000000000 : ℚ) 3 [[0, 2, 1], [1, 3, 1 / 2], [2, 6, 5]],
      Decided (1 / 1000000000000) part := by decide +kernel
  refine ⟨by decide +kernel, hsteps, ⟨[[0, 2, 1], [1, 3, 1 / 2], [2, 6, 5]], 3, by decide⟩, rfl, rfl,
    by decide +kernel, ?_⟩
  exact determinant_eq_det (m := ⟨[[0, 2, 1], [1, 3, 1 / 2], [2, 6, 5]], 3, by decide⟩)
    (by decide +kernel) rfl hsteps

end Reckon.Matrix
