import Mathlib.LinearAlgebra.Matrix.ToLin
import Reckon.Proofs.Matrix.Stage

/-!
# Reduced row-echelon form

Rows are in reduced row-echelon form (`IsReduced`) when those that are zero come last, every other row
starts with a one, further to the right than the row above, and this one is alone in its column.  Over the
rationals `reduced?` gives rows of that form with the same null space (`reduced?_isReduced`), provided the
threshold never takes an entry for zero that is not: every entry that is compared with it, in the search for
pivots or when the result is cleaned, is zero or reaches it (`compared`).

The last stage of the reduction has its pivots in unit columns (`Stage.Pivoted`).  If what was passed over
is zero then nothing stands in front of a pivot (`Stage.Staircase`) or in a row without one, and that is the
form (`Stage.isReduced`).
-/

namespace Reckon.Matrix

variable {eps : ℚ} {width n : Nat} {row : List ℚ} {rows : List (List ℚ)}

/-! ## The form -/

/-- The column of the first entry that is not zero. -/
def leading? (row : List ℚ) : Option Nat :=
  row.findIdx? fun x => decide (x ≠ 0)

theorem leading?_eq_none_iff : leading? row = none ↔ ∀ c, entry row c = 0 := by
  rw [leading?, List.findIdx?_eq_none_iff]
  constructor
  · intro h c
    by_cases hc : c < row.length
    · rw [entry_of_lt hc]
      simpa using h _ (List.getElem_mem hc)
    · exact entry_of_le (not_lt.1 hc)
  · intro h x hx
    obtain ⟨c, hc, rfl⟩ := List.getElem_of_mem hx
    have hentry := h c
    rw [entry_of_lt hc] at hentry
    simpa using hentry

theorem leading?_eq_some_iff {c : Nat} :
    leading? row = some c ↔ entry row c ≠ 0 ∧ ∀ d < c, entry row d = 0 := by
  rw [leading?, List.findIdx?_eq_some_iff_getElem]
  constructor
  · rintro ⟨hc, hne, hzero⟩
    refine ⟨by rw [entry_of_lt hc]; simpa using hne, fun d hd => ?_⟩
    rw [entry_of_lt (hd.trans hc)]
    simpa using hzero d hd
  · rintro ⟨hne, hzero⟩
    have hc : c < row.length := by
      by_contra hc
      exact hne (entry_of_le (not_lt.1 hc))
    refine ⟨hc, by rw [entry_of_lt hc] at hne; simpa using hne, fun d hd => ?_⟩
    have hd' := hzero d hd
    rw [entry_of_lt (hd.trans hc)] at hd'
    simpa using hd'

/-- Reduced row-echelon form. -/
structure IsReduced (rows : List (List ℚ)) : Prop where
  /-- Zero rows come last. -/
  zero_last : rows.Pairwise fun r s => leading? r = none → leading? s = none
  /-- Every other row starts with a one, -/
  leading_one : ∀ r ∈ rows, ∀ c ∈ leading? r, entry r c = 1
  /-- further to the right than those above, -/
  leading_lt : rows.Pairwise fun r s => ∀ c ∈ leading? r, ∀ d ∈ leading? s, c < d
  /-- which is alone in its column. -/
  alone : rows.Pairwise fun r s =>
    (∀ c ∈ leading? r, entry s c = 0) ∧ ∀ d ∈ leading? s, entry r d = 0

instance (rows : List (List ℚ)) : Decidable (IsReduced rows) :=
  decidable_of_iff
    ((rows.Pairwise fun r s => leading? r = none → leading? s = none) ∧
      (∀ r ∈ rows, ∀ c ∈ leading? r, entry r c = 1) ∧
      (rows.Pairwise fun r s => ∀ c ∈ leading? r, ∀ d ∈ leading? s, c < d) ∧
      rows.Pairwise fun r s => (∀ c ∈ leading? r, entry s c = 0) ∧ ∀ d ∈ leading? s, entry r d = 0)
    ⟨fun ⟨h₁, h₂, h₃, h₄⟩ => ⟨h₁, h₂, h₃, h₄⟩, fun ⟨h₁, h₂, h₃, h₄⟩ => ⟨h₁, h₂, h₃, h₄⟩⟩

example : IsReduced [[0, 1, 2, 0], [0, 0, 0, 1], [0, 0, 0, 0]] := by decide +kernel

example : ¬IsReduced [[0, 1, 2, 3], [0, 0, 0, 1]] := by decide +kernel

/-- Of rows in this form that are zero before a column, only the first can start there. -/
theorem IsReduced.eq_first {above rest : List (List ℚ)} {first : List ℚ}
    (h : IsReduced (above ++ first :: rest)) {col : Nat} (hfirst : ∀ c < col, entry first c = 0)
    (hrow : row ∈ first :: rest) (hleading : leading? row = some col) : row = first := by
  rcases List.mem_cons.1 hrow with rfl | hrow
  · rfl
  obtain ⟨-, hzero, -⟩ := List.pairwise_append.1 h.zero_last
  obtain ⟨-, hlt, -⟩ := List.pairwise_append.1 h.leading_lt
  cases hd : leading? first with
  | none =>
    rw [(List.pairwise_cons.1 hzero).1 row hrow hd] at hleading
    cases hleading
  | some d =>
    have hdcol : d < col := (List.pairwise_cons.1 hlt).1 row hrow d hd col hleading
    exact absurd (hfirst d hdcol) (leading?_eq_some_iff.1 hd).1

namespace Stage

variable {s : Stage ℚ}

/-- A stage with nothing in front of its pivots and nothing else in the rows without one. -/
theorem isReduced (h : Pivoted width s) (hfront : ∀ p ∈ s.finished, ∀ c < p.1, entry p.2 c = 0)
    (htodo : ∀ row ∈ s.todo, ∀ c, entry row c = 0) : IsReduced s.rows := by
  have hleading : ∀ p ∈ s.finished, leading? p.2 = some p.1 := by
    intro p hp
    refine leading?_eq_some_iff.2 ⟨?_, hfront p hp⟩
    rw [h.one p hp]
    exact one_ne_zero
  have hnone : ∀ row ∈ s.todo, leading? row = none := fun row hrow =>
    leading?_eq_none_iff.2 (htodo row hrow)
  -- What holds of any row and a zero row below it has to be seen for the finished ones only.
  have hrows : ∀ {R : List ℚ → List ℚ → Prop}, (∀ r r', leading? r' = none → R r r') →
      (s.finished.Pairwise fun p q => R p.2 q.2) → s.rows.Pairwise R := by
    intro R hzero hfinished
    refine List.pairwise_append.2 ⟨List.pairwise_map.2 hfinished, ?_, ?_⟩
    · exact List.pairwise_of_forall_mem_list fun r _ r' hr' => hzero r r' (hnone r' hr')
    · exact fun r _ r' hr' => hzero r r' (hnone r' hr')
  refine ⟨?_, ?_, ?_, ?_⟩
  · refine hrows (fun r r' hr' _ => hr') (h.alone.imp_of_mem fun hp _ _ => ?_)
    rw [hleading _ hp]
    rintro ⟨⟩
  · refine forall_rows.2 ⟨fun p hp => ?_, fun row hrow => ?_⟩
    · rw [hleading p hp]
      rintro _ ⟨⟩
      exact h.one p hp
    · rw [hnone row hrow]
      rintro _ ⟨⟩
  · refine hrows (fun r r' hr' => ?_) (h.increasing.imp_of_mem fun hp hq hpq => ?_)
    · rw [hr']
      rintro _ _ _ ⟨⟩
    · rw [hleading _ hp, hleading _ hq]
      rintro _ ⟨⟩ _ ⟨⟩
      exact hpq
  · refine hrows (fun r r' hr' => ⟨fun c _ => leading?_eq_none_iff.1 hr' c, ?_⟩)
      (h.alone.imp_of_mem fun hp hq hpq => ?_)
    · rw [hr']
      rintro _ ⟨⟩
    · rw [hleading _ hp, hleading _ hq]
      refine ⟨?_, ?_⟩ <;> rintro _ ⟨⟩
      · exact hpq.2
      · exact hpq.1

/-! ## What is compared with the threshold -/

/-- The entries compared in all searches for a pivot. -/
def comparisons (eps : ℚ) (width : Nat) : Nat → Stage ℚ → List ℚ
  | 0, _ => []
  | n + 1, s =>
    s.compared eps width ++
      match s.next? eps width with
      | some s' => comparisons eps width n s'
      | none => []

/-- If every comparison is decided rightly, then nothing is left in front of pivots or without one. -/
theorem staircase_final (h : Pivoted width s) (hs : Staircase s) (heps : 0 < eps)
    (hn : s.todo.length ≤ n) (hcompared : ∀ x ∈ s.comparisons eps width n, |x| < eps → x = 0) :
    Staircase (s.final eps width n) ∧ ∀ row ∈ (s.final eps width n).todo, ∀ c, entry row c = 0 := by
  induction n generalizing s with
  | zero =>
    have hnil : s.todo = [] := List.length_eq_zero_iff.1 (Nat.le_zero.1 hn)
    refine ⟨hs, fun row hrow => ?_⟩
    rw [final, hnil] at hrow
    cases hrow
  | succ n ih =>
    obtain ⟨hhere, hlater⟩ := List.forall_mem_append.1 hcompared
    cases hnext : s.next? eps width with
    | none =>
      rw [final_of_none hnext]
      refine ⟨hs, hs.todo_eq_zero h fun row hrow c hlead hwidth => ?_⟩
      obtain ⟨hneg, hmem⟩ := negligible_of_next?_eq_none hnext row hrow c hlead hwidth
      exact hhere _ hmem (negligible_iff.1 hneg)
    | some s' =>
      obtain ⟨col, chosen, others, hchosen, rfl⟩ := next?_cases hnext
      rw [hnext] at hlater
      rw [final_succ_some hnext]
      have hlength := hchosen.length_todo
      refine ih (h.clear hchosen heps) (hs.clear h hchosen heps fun row hrow c hlead hcol => ?_) (by omega)
        hlater
      obtain ⟨hneg, hmem⟩ := hchosen.skipped row hrow c hlead hcol
      exact hhere _ hmem (negligible_iff.1 hneg)

end Stage

/-! ## Matrices -/

variable {m : Matrix ℚ}

/-- The entries that the reduction of a matrix compares with the threshold: those looked at in the search
for pivots, and all entries when the result is cleaned. -/
def compared (eps : ℚ) (m : Matrix ℚ) : List ℚ :=
  (Stage.start m.rows).comparisons eps m.colCount.toNat m.rowCount ++
    (reduceFrom eps m.colCount.toNat m.rowCount [] m.rows 0).flatten

/-- The last stage of the reduction of a matrix. -/
def lastStage (eps : ℚ) (m : Matrix ℚ) : Stage ℚ :=
  (Stage.start m.rows).final eps m.colCount.toNat m.rowCount

theorem rows_lastStage (eps : ℚ) (m : Matrix ℚ) :
    reduceFrom eps m.colCount.toNat m.rowCount [] m.rows 0 = (lastStage eps m).rows :=
  Stage.reduceFrom_eq m.rowCount (Stage.start m.rows)

theorem length_row (m : Matrix ℚ) : ∀ row ∈ m.rows, row.length = m.colCount.toNat := by
  intro row hrow
  have hlength := m.row_length row hrow
  omega

theorem pivoted_lastStage (heps : 0 < eps) (m : Matrix ℚ) :
    Stage.Pivoted m.colCount.toNat (lastStage eps m) :=
  (Stage.pivoted_start (length_row m)).final heps m.rowCount

/-- The vectors orthogonal to all rows are the null space. -/
theorem mem_ker_grid {height : Nat} (h : rows.length = height) {v : Fin width → ℚ} :
    v ∈ LinearMap.ker (grid height width rows).mulVecLin ↔ ∀ row ∈ rows, Stage.Annihilates v row := by
  rw [LinearMap.mem_ker, Matrix.mulVecLin_apply, funext_iff]
  constructor
  · intro hv row hrow
    obtain ⟨i, hi, rfl⟩ := List.getElem_of_mem hrow
    rw [← List.getD_eq_getElem rows [] hi]
    exact hv ⟨i, h ▸ hi⟩
  · intro hv i
    have hi : (i : Nat) < rows.length := h.symm ▸ i.isLt
    have hrow := hv _ (List.getElem_mem hi)
    rw [← List.getD_eq_getElem rows [] hi] at hrow
    exact hrow

/-- No entry is negligible but zero. -/
def Settled (eps : ℚ) (rows : List (List ℚ)) : Prop :=
  ∀ row ∈ rows, ∀ x ∈ row, |x| < eps → x = 0

theorem cleaned_eq (x : ℚ) : cleaned eps x = if |x| < eps then 0 else x := by
  simp only [cleaned, negligible_iff, zero_eq]

/-- Nothing is to be cleaned there. -/
theorem Settled.map_cleaned (h : Settled eps rows) : rows.map (List.map (cleaned eps)) = rows := by
  refine (List.map_congr_left fun row hrow => ?_).trans (List.map_id rows)
  refine (List.map_congr_left fun x hx => ?_).trans (List.map_id row)
  rw [cleaned_eq]
  split
  · exact (h row hrow x hx ‹_›).symm
  · rfl

theorem rows_reduced? {r : Matrix ℚ} (h : m.reduced? eps = some r) :
    r.rows = (lastStage eps m).rows.map (List.map (cleaned eps)) := by
  rw [← rows_lastStage]
  exact (make?_eq_some_iff.1 h).1

/-- **The reduction gives the reduced row-echelon form.** -/
theorem reduced?_isReduced (heps : 0 < eps) (hm : m.Shaped)
    (hcompared : ∀ x ∈ compared eps m, x = 0 ∨ eps ≤ |x|) :
    ∃ r, m.reduced? eps = some r ∧ r.dims = m.dims ∧ IsReduced r.rows ∧
      LinearMap.ker (grid m.rowCount m.colCount.toNat r.rows).mulVecLin =
        LinearMap.ker (grid m.rowCount m.colCount.toNat m.rows).mulVecLin := by
  have hzero : ∀ x ∈ compared eps m, |x| < eps → x = 0 := fun x hx hsmall =>
    (hcompared x hx).resolve_right (not_le.2 hsmall)
  obtain ⟨hsearch, hclean⟩ := List.forall_mem_append.1 hzero
  obtain ⟨r, hr, hdims⟩ := reduced?_dims eps hm
  have hrows : r.rows = (lastStage eps m).rows := by
    rw [rows_reduced? hr]
    refine Settled.map_cleaned fun row hrow x hx => hclean x ?_
    rw [rows_lastStage]
    exact List.mem_flatten_of_mem hrow hx
  refine ⟨r, hr, hdims, ?_, ?_⟩
  · obtain ⟨hstairs, htodo⟩ := Stage.staircase_final (Stage.pivoted_start (length_row m))
      (Stage.staircase_start m.rows) heps (le_refl m.rowCount) hsearch
    rw [hrows]
    exact Stage.isReduced (pivoted_lastStage heps m) hstairs.front htodo
  · have hcount : r.rows.length = m.rowCount := Int.ofNat.inj (Prod.mk.inj hdims).1
    ext v
    rw [mem_ker_grid hcount, mem_ker_grid hm.height_eq, hrows]
    exact Stage.annihilates_final (Stage.pivoted_start (length_row m)) heps m.rowCount

/-- Three rows of rank two: the first column is zero, the first pivot comes from the second row, and the
third row becomes zero on the way. -/
theorem reduced?_isReduced_rank_two :
    (0 : ℚ) < 1 / 1000000000000 ∧
    ∃ m : Matrix ℚ, m.rows = [[0, 0, 2, 4], [0, 3, 1, 1], [0, 3, 3, 5]] ∧ m.Shaped ∧
      (∀ x ∈ compared (1 / 1000000000000) m, x = 0 ∨ 1 / 1000000000000 ≤ |x|) ∧
      ∃ r, m.reduced? (1 / 1000000000000) = some r ∧
        r.rows = [[0, 1, 0, -1 / 3], [0, 0, 1, 2], [0, 0, 0, 0]] ∧ IsReduced r.rows ∧
        LinearMap.ker (grid 3 4 r.rows).mulVecLin = LinearMap.ker (grid 3 4 m.rows).mulVecLin := by
  have heps : (0 : ℚ) < 1 / 1000000000000 := by decide +kernel
  let m : Matrix ℚ := ⟨[[0, 0, 2, 4], [0, 3, 1, 1], [0, 3, 3, 5]], 4, by decide⟩
  have hm : m.Shaped := shaped_iff.2 (by decide)
  have hcompared : ∀ x ∈ compared (1 / 1000000000000) m, x = 0 ∨ 1 / 1000000000000 ≤ |x| := by
    decide +kernel
  obtain ⟨r, hr, -, hreduced, hker⟩ := reduced?_isReduced heps hm hcompared
  refine ⟨heps, m, rfl, hm, hcompared, r, hr, ?_, hreduced, hker⟩
  rw [rows_reduced? hr]
  decide +kernel

end Reckon.Matrix
