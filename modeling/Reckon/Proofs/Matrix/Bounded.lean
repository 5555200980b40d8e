import Reckon.Proofs.Eval.Safety
import Reckon.Proofs.Matrix.Descent
import Reckon.Proofs.Matrix.Reduction

/-!
# Elimination in place is safe and ends

The loops of a reduction and of a determinant work on the rows of any matrix, one without rows or without columns
included.  Of the entries nothing is known but that a zero is negligible: they may be infinite, and a comparison
with one that is not a number is false.

The loops start inside of the matrix, unless there is nothing to do (`Reduction.stands_start`,
`Descent.standing_start`), and so every round is sound.  Hence the loops end, with the outcome of `reducedRows` and
of `determinant`, and wherever they come to on the way, the next round reads and writes entries that are there, and
divides by no zero (`elimination_bounded`).
-/

namespace Reckon.Matrix

open InPlace

variable {α : Type}

theorem Rectangle.map_length {height width : Nat} {rows : List (List α)} (h : Rectangle height width rows) :
    rows.map List.length = List.replicate height width := by
  refine List.eq_replicate_iff.2 ⟨by rw [List.length_map, h.height_eq], fun n hn => ?_⟩
  obtain ⟨r, hr, rfl⟩ := List.mem_map.1 hn
  exact h.width_eq r hr

/-- The rows of a matrix, the number of its columns taken as a natural one. -/
theorem rectangle_toNat (m : Matrix α) : Rectangle m.rowCount m.colCount.toNat m.rows := by
  refine ⟨rfl, fun r hr => ?_⟩
  have hlength := m.row_length r hr
  omega

variable [Scalar α] {isZero : α → Bool} {eps : α} {m : Matrix α}

/-! ## Reductions -/

/-- The reduced form of a matrix has as many rows, and each is as long. -/
theorem exists_reduced?_length (eps : α) (m : Matrix α) :
    ∃ r, m.reduced? eps = some r ∧ r.rows = m.reducedRows eps ∧
      r.rows.map List.length = m.rows.map List.length := by
  have hnone : Rectangle 0 m.colCount.toNat ([] : List (List α)) := ⟨rfl, by simp⟩
  have hrun := hnone.reduceFrom eps m.rowCount 0 m.rectangle_toNat
  rw [Nat.zero_add] at hrun
  have hreduced : Rectangle m.rowCount m.colCount.toNat (m.reducedRows eps) :=
    hrun.mapRows fun r hr => by rw [List.length_map, hr]
  obtain ⟨r, hr⟩ : ∃ r, m.reduced? eps = some r := by
    rcases Nat.eq_zero_or_pos m.rowCount with hrows | hrows
    · have hnil : m.reducedRows eps = [] := List.length_eq_zero_iff.1 (hreduced.height_eq.trans hrows)
      exact ⟨⟨[], 0, by simp⟩, by rw [reduced?, hnil]; rfl⟩
    · obtain ⟨r, hr, -⟩ := hreduced.exists_ofRows? hrows
      exact ⟨r, hr⟩
  have hrows : r.rows = m.reducedRows eps := (make?_eq_some_iff.1 hr).1
  exact ⟨r, hr, hrows, by rw [hrows, hreduced.map_length, m.rectangle_toNat.map_length]⟩

namespace InPlace.Reduction

variable {s : Reduction α}

/-- If there is a first round, it starts with all rows still to do. -/
theorem stands_start (eps : α) (h : start m = .next s) :
    (m.colCount.toNat : Int) = m.colCount ∧
      Stands eps m.rowCount m.colCount.toNat (reduceFrom eps m.colCount.toNat m.rowCount [] m.rows 0) [] m.rows
        s := by
  unfold start enter at h
  split at h
  · rename_i hlt
    cases h
    have hwidth : (m.colCount.toNat : Int) = m.colCount := by omega
    exact ⟨hwidth, Stands.of_enter ⟨rfl, by simp⟩ m.rectangle_toNat hlt.1 (by omega) rfl⟩
  · cases h

theorem ends (hzero : ∀ x, isZero x = true → Scalar.negligible eps x = true) (m : Matrix α) :
    Ends (round isZero eps m.rowCount m.colCount) (start m)
      (reduceFrom eps m.colCount.toNat m.rowCount [] m.rows 0) := by
  cases hstart : start m with
  | done rows =>
    unfold start enter at hstart
    split at hstart
    · cases hstart
    · cases hstart
      rw [reduceFrom_ended (by omega)]
      exact .done m.rows
  | next s =>
    obtain ⟨hwidth, hstands⟩ := stands_start eps hstart
    rw [← hwidth]
    exact Sound.ends (nearer_wf _ _) (fun _ => round_sound hzero) hstands.standing

/-- Wherever the loops come to, they stand inside of the matrix. -/
theorem standing_of_comes (hzero : ∀ x, isZero x = true → Scalar.negligible eps x = true)
    (hcomes : Comes (round isZero eps m.rowCount m.colCount) (start m) (.next s)) :
    (m.colCount.toNat : Int) = m.colCount ∧
      Standing eps m.rowCount m.colCount.toNat (reduceFrom eps m.colCount.toNat m.rowCount [] m.rows 0) s := by
  obtain ⟨first, hfirst⟩ : ∃ first, start m = .next first := by
    rcases Relation.ReflTransGen.cases_head hcomes with heq | ⟨-, ⟨first, hfirst, -⟩, -⟩
    · exact ⟨s, heq⟩
    · exact ⟨first, hfirst⟩
  obtain ⟨hwidth, hstands⟩ := stands_start eps hfirst
  rw [hfirst, ← hwidth] at hcomes
  refine ⟨hwidth, Sound.invariant (fun _ => round_sound hzero) ?_ hcomes⟩
  rintro _ ⟨⟩
  exact hstands.standing

end InPlace.Reduction

/-! ## Determinants -/

namespace InPlace.Descent

variable {s : Descent α}

omit [Scalar α] in
theorem rectangle_of_isSquare (h : m.isSquare = true) : Rectangle m.rowCount m.rowCount m.rows := by
  have hcols : (m.rowCount : Int) = m.colCount := by simpa [isSquare] using h
  have hrows := m.rectangle_toNat
  rwa [← hcols, Int.toNat_natCast] at hrows

theorem standing_start (eps : α) (hsquare : m.isSquare = true) (h : start m = .next s) :
    Standing eps m.rowCount (m.determinant eps) s := by
  unfold start enter at h
  split at h
  · rename_i hlt
    cases h
    have hdrop : m.rows.map (List.drop 0) = m.rows := List.map_id _
    refine ⟨[], m.rows, rfl, ⟨rfl, by simp⟩, rectangle_of_isSquare hsquare, hlt, ?_⟩
    dsimp only
    rw [hdrop]
    rfl
  · cases h

theorem ends (hzero : ∀ x, isZero x = true → Scalar.negligible eps x = true) (hsquare : m.isSquare = true) :
    Ends (round isZero eps m.rowCount) (start m) (m.determinant eps) := by
  cases hstart : start m with
  | done det =>
    unfold start enter at hstart
    split at hstart
    · cases hstart
    · cases hstart
      have hrows : m.rowCount = 0 := by omega
      have hdet : m.determinant eps = Scalar.one := by rw [determinant, hrows]; rfl
      rw [hdet]
      exact .done _
  | next s =>
    exact Sound.ends (nearer_wf _) (fun _ => round_sound hzero) (standing_start eps hsquare hstart)

theorem standing_of_comes (hzero : ∀ x, isZero x = true → Scalar.negligible eps x = true)
    (hsquare : m.isSquare = true) (hcomes : Comes (round isZero eps m.rowCount) (start m) (.next s)) :
    Standing eps m.rowCount (m.determinant eps) s :=
  Sound.invariant (fun _ => round_sound hzero) (fun _ => standing_start eps hsquare) hcomes

end InPlace.Descent

/-! ## Both -/

/-- **Elimination in place is safe and ends.**  For every matrix the loops of a reduction end, and with the reduced
form.  Wherever they stand on the way, it is inside of the matrix, every row is as long as it was, and the next
round breaches nothing; it leaves fewer columns, or as many and fewer rows.  For a square matrix the loop of the
determinant ends, and with the determinant, and it is as safe. -/
theorem elimination_bounded (hzero : ∀ x, isZero x = true → Scalar.negligible eps x = true) (m : Matrix α) :
    (∃ rows r, Ends (Reduction.round isZero eps m.rowCount m.colCount) (Reduction.start m) rows ∧
      m.reduced? eps = some r ∧ r.rows = rows.map (List.map (cleaned eps)) ∧
      r.rows.map List.length = m.rows.map List.length) ∧
    (∀ s, Comes (Reduction.round isZero eps m.rowCount m.colCount) (Reduction.start m) (.next s) →
      s.row < m.rowCount ∧ s.lead < m.colCount ∧ s.rows.map List.length = m.rows.map List.length ∧
      ∃ o, Reduction.round isZero eps m.rowCount m.colCount s = .ok o ∧
        ∀ t, o = .next t → Prod.Lex (· < ·) (· < ·) (t.left m.rowCount m.colCount)
          (s.left m.rowCount m.colCount)) ∧
    (m.isSquare = true →
      Ends (Descent.round isZero eps m.rowCount) (Descent.start m) (m.determinant eps) ∧
      ∀ s, Comes (Descent.round isZero eps m.rowCount) (Descent.start m) (.next s) →
        s.col < m.rowCount ∧ s.rows.map List.length = m.rows.map List.length ∧
        ∃ o, Descent.round isZero eps m.rowCount s = .ok o ∧ ∀ t, o = .next t → s.col < t.col) := by
  obtain ⟨r, hr, hrows, hlength⟩ := exists_reduced?_length eps m
  refine ⟨⟨_, r, Reduction.ends hzero m, hr, hrows, hlength⟩, fun s hs => ?_, fun hsquare =>
    ⟨Descent.ends hzero hsquare, fun s hs => ?_⟩⟩
  · obtain ⟨hwidth, hstanding⟩ := Reduction.standing_of_comes hzero hs
    have hsound := Reduction.round_sound hzero hstanding
    obtain ⟨above, todo, h⟩ := hstanding
    rw [hwidth] at hsound
    obtain ⟨o, ho⟩ := hsound.ok
    have hlead := h.lead_lt
    refine ⟨h.row_lt, by omega, by rw [h.rectangle.map_length, m.rectangle_toNat.map_length], o, ho, ?_⟩
    rintro t rfl
    exact (hsound.keeps t ho).2
  · have hstanding := Descent.standing_of_comes hzero hsquare hs
    have hsound := Descent.round_sound hzero hstanding
    obtain ⟨above, todo, h⟩ := hstanding
    obtain ⟨o, ho⟩ := hsound.ok
    refine ⟨h.col_lt, ?_, o, ho, ?_⟩
    · rw [h.rectangle.map_length, (Descent.rectangle_of_isSquare hsquare).map_length]
    · rintro t rfl
      have hless := (hsound.keeps t ho).2
      unfold Descent.Nearer at hless
      omega

/-- A zero, an entry that is not a number and an infinite one. -/
theorem elimination_bounded_not_a_number :
    (∀ x : Float, (x == 0) = true → Scalar.negligible Builtin.threshold x = true) ∧
    ∃ (m : Matrix Float) (rows : List (List Float)), m.rows = [[0 / 0, 0], [1 / 0, 2]] ∧ m.isSquare = true ∧
      Ends (Reduction.round (· == 0) Builtin.threshold m.rowCount m.colCount) (Reduction.start m) rows ∧
      Ends (Descent.round (· == 0) Builtin.threshold m.rowCount) (Descent.start m)
        (m.determinant Builtin.threshold) := by
  let m : Matrix Float := ⟨[[0 / 0, 0], [1 / 0, 2]], 2, by decide⟩
  have hsquare : m.isSquare = true := rfl
  obtain ⟨⟨rows, -, hends, -⟩, -, hdet⟩ := elimination_bounded negligible_of_beq_zero m
  exact ⟨negligible_of_beq_zero, m, rows, rfl, hsquare, hends, (hdet hsquare).1⟩

end Reckon.Matrix
