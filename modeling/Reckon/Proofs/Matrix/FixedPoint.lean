import Reckon.Proofs.Matrix.Echelon

/-!
# What a second reduction changes

An entry that is negligible is passed over in the search for a pivot, but it stays in its row; divided by a
small pivot, or combined with others later, it may not be negligible any more, and then it is left in front
of the pivot.  Such a matrix is not in reduced row-echelon form, and a second reduction takes the entry for
a pivot.

For a threshold of at most one, the matrices that a reduction gives back unchanged are those in reduced
row-echelon form without negligible entries other than zero (`reduced?_eq_self_iff`).  In one direction, a
reduction that ends with the rows that it began with has never changed them: the column of each pivot is a
unit column at the end, so it was one at the beginning, and the step did nothing.  In the other direction,
each pivot that is found in such rows is the one at which the next row starts.

So a second reduction changes nothing if and only if the first one has reached the form, which it has if it
leaves nothing in front of its pivots (`reduced?_twice_iff`).
-/

namespace Reckon.Matrix

variable {eps : ℚ} {width n : Nat} {rows : List (List ℚ)}

/-! ## Cleaned rows -/

theorem Settled.entry {row : List ℚ} (h : Settled eps rows) (hrow : row ∈ rows) {c : Nat}
    (hsmall : Scalar.negligible eps (Matrix.entry row c) = true) : Matrix.entry row c = 0 := by
  by_cases hc : c < row.length
  · rw [entry_of_lt hc] at hsmall ⊢
    exact h row hrow _ (List.getElem_mem hc) (negligible_iff.1 hsmall)
  · exact entry_of_le (not_lt.1 hc)

theorem settled_map_cleaned (rows : List (List ℚ)) : Settled eps (rows.map (List.map (cleaned eps))) := by
  refine List.forall_mem_map.2 fun row _ => List.forall_mem_map.2 fun x _ => ?_
  rw [cleaned_eq]
  split
  · exact fun _ => rfl
  · exact fun hsmall => absurd hsmall ‹_›

theorem cleaned_zero : cleaned eps 0 = 0 := by
  rw [cleaned_eq, ite_self]

theorem entry_map_cleaned (row : List ℚ) (c : Nat) :
    entry (row.map (cleaned eps)) c = cleaned eps (entry row c) :=
  entry_map cleaned_zero row c

theorem cleaned_one (hone : eps ≤ 1) : cleaned eps 1 = 1 := by
  rw [cleaned_eq, abs_one, if_neg (not_lt.2 hone)]

namespace Stage

variable {s t : Stage ℚ} {col : Nat} {chosen : List ℚ} {others : List (List ℚ)}

/-- A stage with its negligible entries cleaned. -/
def tidied (eps : ℚ) (s : Stage ℚ) : Stage ℚ where
  finished := s.finished.map fun p => (p.1, p.2.map (cleaned eps))
  todo := s.todo.map (List.map (cleaned eps))
  lead := s.lead

theorem rows_tidied (s : Stage ℚ) : (s.tidied eps).rows = s.rows.map (List.map (cleaned eps)) := by
  simp [rows, tidied, Function.comp_def]

/-- Unit columns stay what they are. -/
theorem Pivoted.tidied (h : Pivoted width s) (hone : eps ≤ 1) : Pivoted width (s.tidied eps) where
  length_eq := by
    rw [rows_tidied]
    refine List.forall_mem_map.2 fun row hrow => ?_
    rw [List.length_map, h.length_eq row hrow]
  lt_lead := List.forall_mem_map.2 h.lt_lead
  increasing := List.pairwise_map.2 h.increasing
  one := by
    refine List.forall_mem_map.2 fun p hp => ?_
    rw [entry_map_cleaned, h.one p hp, cleaned_one hone]
  alone := by
    refine List.pairwise_map.2 (h.alone.imp fun hpq => ?_)
    rw [entry_map_cleaned, entry_map_cleaned, hpq.1, hpq.2, cleaned_zero]
    exact ⟨rfl, rfl⟩
  below := by
    refine List.forall_mem_map.2 fun p hp => List.forall_mem_map.2 fun row hrow => ?_
    rw [entry_map_cleaned, h.below p hp row hrow, cleaned_zero]

/-! ## Steps that change nothing -/

/-- A step at a unit column changes nothing. -/
theorem clear_of_unit (h : Pivoted width s) (htodo : s.todo = chosen :: others)
    (hpivot : entry chosen col = 1) (hfinished : ∀ p ∈ s.finished, entry p.2 col = 0)
    (hothers : ∀ row ∈ others, entry row col = 0) : (s.clear col chosen others).rows = s.rows := by
  have hnormal : normalized col chosen = chosen := by
    rw [normalized, hpivot]
    exact (List.map_congr_left fun x _ => div_one x).trans (List.map_id chosen)
  have hchosen : chosen.length = width := h.length_todo (htodo ▸ List.mem_cons_self)
  have hkeep : ∀ row : List ℚ, row.length = width → entry row col = 0 → clearAt col chosen row = row := by
    intro row hrow hzero
    have hlength : row.length = chosen.length := hrow.trans hchosen.symm
    refine row_ext (Checked.length_subtractScaled hlength _) fun c _ => ?_
    rw [entry_clearAt hlength, hzero, zero_mul, sub_zero]
  have hrows : s.finished.map (fun p => clearAt col chosen p.2) = s.finished.map (·.2) :=
    List.map_congr_left fun p hp => hkeep p.2 (h.length_finished hp) (hfinished p hp)
  have hrest : others.map (clearAt col chosen) = others :=
    (List.map_congr_left fun row hrow => hkeep row
      (h.length_todo (htodo ▸ List.mem_cons_of_mem chosen hrow)) (hothers row hrow)).trans (List.map_id others)
  simp [rows, clear, hnormal, htodo, hrest, hrows, Function.comp_def]

/-- The pivots that were found stay. -/
theorem columns_prefix_final (s : Stage ℚ) (n : Nat) :
    s.finished.map (·.1) <+: (s.final eps width n).finished.map (·.1) := by
  let P (t : Stage ℚ) : Prop := s.finished.map (·.1) <+: t.finished.map (·.1)
  have hkept : P (s.final eps width n) := by
    refine final_keeps (fun {t col _ _} _ ht => ht.trans ⟨[col], ?_⟩) n List.prefix_rfl
    simp [clear, Function.comp_def]
  exact hkept

/-- The column of a pivot is a unit column, with the one in the row of the pivot's number. -/
theorem Pivoted.unit_column (h : Pivoted width t) {done : List Nat}
    (hcol : done ++ [col] <+: t.finished.map (·.1)) :
    ∃ above row below, t.rows = above ++ row :: below ∧ above.length = done.length ∧
      entry row col = 1 ∧ (∀ r ∈ above, entry r col = 0) ∧ ∀ r ∈ below, entry r col = 0 := by
  obtain ⟨later, hlater⟩ := hcol
  obtain ⟨upTo, post, hfinished, hupTo, -⟩ := List.map_eq_append_iff.1 hlater.symm
  obtain ⟨pre, last, rfl, hpre, hlast⟩ := List.map_eq_append_iff.1 hupTo
  obtain ⟨p, rfl, hp⟩ : ∃ p, last = [p] ∧ p.1 = col := by
    obtain ⟨p, rest, rfl, hp, hrest⟩ := List.map_eq_cons_iff.1 hlast
    exact ⟨p, by rw [List.map_eq_nil_iff.1 hrest], hp⟩
  have hmem : p ∈ t.finished := by simp [hfinished]
  have halone := h.alone
  rw [hfinished, List.append_assoc, List.pairwise_append] at halone
  obtain ⟨-, hrest, hbefore⟩ := halone
  refine ⟨pre.map (·.2), p.2, post.map (·.2) ++ t.todo, ?_, ?_, hp ▸ h.one p hmem, ?_, ?_⟩
  · simp [rows, hfinished]
  · rw [List.length_map, ← hpre, List.length_map]
  · refine List.forall_mem_map.2 fun q hq => ?_
    exact hp ▸ (hbefore q hq p (by simp)).1
  · refine List.forall_mem_append.2 ⟨List.forall_mem_map.2 fun q hq => ?_, fun row hrow => ?_⟩
    · exact hp ▸ ((List.pairwise_cons.1 hrest).1 q hq).2
    · exact hp ▸ h.below p hmem row hrow

/-- In settled rows the columns that a step passes over are zero. -/
theorem Chosen.skipped_settled (h : Chosen eps width s col chosen others) (hset : Settled eps s.rows) :
    ∀ row ∈ s.todo, ∀ c, s.lead ≤ c → c < col → entry row c = 0 := by
  intro row hrow c hlead hcol
  exact hset.entry (List.mem_append_right _ hrow) (h.skipped row hrow c hlead hcol).1

/-- Rows that come out as they went in: each step was at a column that is a unit column at the end, and so
it is one already. -/
theorem isReduced_of_final (heps : 0 < eps) (hone : eps ≤ 1) (h : Pivoted width s) (hs : Staircase s)
    (hset : Settled eps s.rows) (hn : s.todo.length ≤ n)
    (hsame : ((s.final eps width n).tidied eps).rows = s.rows) : IsReduced s.rows := by
  induction n generalizing s with
  | zero =>
    have hnil : s.todo = [] := List.length_eq_zero_iff.1 (Nat.le_zero.1 hn)
    exact isReduced h hs.front (by simp [hnil])
  | succ n ih =>
    cases hnext : s.next? eps width with
    | none =>
      refine isReduced h hs.front (hs.todo_eq_zero h fun row hrow c hlead hwidth => ?_)
      exact hset.entry (List.mem_append_right _ hrow)
        (negligible_of_next?_eq_none hnext row hrow c hlead hwidth).1
    | some s' =>
      obtain ⟨col, chosen, others, hchosen, rfl⟩ := next?_cases hnext
      rw [final_succ_some hnext] at hsame
      have hclear := h.clear hchosen heps
      have hcolumns : s.finished.map (·.1) ++ [col] <+:
          (((s.clear col chosen others).final eps width n).tidied eps).finished.map (·.1) := by
        have hprefix : _ <+: ((s.clear col chosen others).final eps width n).finished.map (·.1) :=
          columns_prefix_final (s.clear col chosen others) n
        simpa [clear, tidied, Function.comp_def] using hprefix
      obtain ⟨above, row, below, hrows, hlength, hpivot, habove, hbelow⟩ :=
        ((hclear.final heps n).tidied hone).unit_column hcolumns
      rw [hsame, rows] at hrows
      obtain ⟨hfinished, htodo⟩ := List.append_inj hrows (by simpa using hlength.symm)
      -- The row of the pivot's number is the first that is to do, so it is the one that was chosen.
      have hfirst : s.todo = chosen :: others := by
        refine hchosen.first.resolve_right ?_
        rintro ⟨r, rest, hrest, hsmall⟩
        rw [htodo] at hrest
        obtain ⟨rfl, -⟩ := List.cons.inj hrest
        rw [negligible_iff, hpivot, abs_one] at hsmall
        exact absurd hsmall (not_lt.2 hone)
      obtain ⟨rfl, rfl⟩ := List.cons.inj (htodo.symm.trans hfirst)
      have hunit : (s.clear col row below).rows = s.rows := by
        refine clear_of_unit h hfirst hpivot (fun p hp => habove _ ?_) hbelow
        rw [← hfinished]
        exact List.mem_map_of_mem hp
      have hlength := hchosen.length_todo
      rw [← hunit] at hset hsame ⊢
      exact ih hclear (hs.clear h hchosen heps (hchosen.skipped_settled (hunit ▸ hset))) hset (by omega) hsame

/-- Rows that have the form: each pivot found is the one at which the next row starts, and the step changes
nothing. -/
theorem rows_final_of_isReduced (heps : 0 < eps) (h : Pivoted width s) (hs : Staircase s)
    (hset : Settled eps s.rows) (hreduced : IsReduced s.rows) :
    (s.final eps width n).rows = s.rows := by
  induction n generalizing s with
  | zero => rfl
  | succ n ih =>
    cases hnext : s.next? eps width with
    | none => rw [final_of_none hnext]
    | some s' =>
      obtain ⟨col, chosen, others, hchosen, rfl⟩ := next?_cases hnext
      rw [final_succ_some hnext]
      have hskipped := hchosen.skipped_settled hset
      have hbefore := hs.before hskipped
      have hleading : leading? chosen = some col :=
        leading?_eq_some_iff.2 ⟨hchosen.pivot_ne_zero heps, hbefore _ hchosen.chosen_mem⟩
      have hfirst : s.todo = chosen :: others := by
        refine hchosen.first.resolve_right ?_
        rintro ⟨first, rest, htodo, hsmall⟩
        have hmem := hchosen.chosen_mem
        rw [rows, htodo] at hreduced
        rw [htodo] at hmem hbefore
        rw [← hreduced.eq_first (hbefore first List.mem_cons_self) hmem hleading, hchosen.pivot] at hsmall
        cases hsmall
      obtain ⟨-, hbelow, habove⟩ := List.pairwise_append.1 hreduced.alone
      have hunit : (s.clear col chosen others).rows = s.rows := by
        refine clear_of_unit h hfirst ?_ (fun p hp => ?_) fun row hrow => ?_
        · exact hreduced.leading_one _ (List.mem_append_right _ hchosen.chosen_mem) col hleading
        · exact (habove _ (List.mem_map_of_mem hp) _ hchosen.chosen_mem).2 col hleading
        · rw [hfirst] at hbelow
          exact ((List.pairwise_cons.1 hbelow).1 row hrow).1 col hleading
      rw [← hunit] at hset hreduced
      exact (ih (h.clear hchosen heps) (hs.clear h hchosen heps hskipped) hset hreduced).trans hunit

/-- Nothing that is not negligible stands in front of a pivot, or in a row without one. -/
structure Unobstructed (eps : ℚ) (s : Stage ℚ) : Prop where
  front : ∀ p ∈ s.finished, ∀ c < p.1, |entry p.2 c| < eps
  below : ∀ row ∈ s.todo, ∀ c, |entry row c| < eps

theorem Unobstructed.isReduced_tidied (h : Unobstructed eps s) (hs : Pivoted width s) (hone : eps ≤ 1) :
    IsReduced (s.tidied eps).rows := by
  refine isReduced (hs.tidied hone) (List.forall_mem_map.2 fun p hp c hc => ?_)
    (List.forall_mem_map.2 fun row hrow c => ?_)
  · rw [entry_map_cleaned, cleaned_eq, if_pos (h.front p hp c hc)]
  · rw [entry_map_cleaned, cleaned_eq, if_pos (h.below row hrow c)]

end Stage

/-! ## Matrices -/

variable {m : Matrix ℚ}

/-- **The matrices that a reduction does not change.** -/
theorem reduced?_eq_self_iff (heps : 0 < eps) (hone : eps ≤ 1) (hm : m.Shaped) :
    m.reduced? eps = some m ↔ IsReduced m.rows ∧ Settled eps m.rows := by
  have hstart := Stage.pivoted_start (length_row m)
  have hstairs := Stage.staircase_start m.rows
  constructor
  · intro h
    have hrows := rows_reduced? h
    have hset : Settled eps m.rows := by
      rw [hrows]
      exact settled_map_cleaned _
    refine ⟨Stage.isReduced_of_final heps hone hstart hstairs hset (le_refl m.rowCount) ?_, hset⟩
    exact (Stage.rows_tidied _).trans hrows.symm
  · rintro ⟨hreduced, hset⟩
    obtain ⟨r, hr, hdims⟩ := reduced?_dims eps hm
    have hlast : (lastStage eps m).rows = m.rows :=
      Stage.rows_final_of_isReduced heps hstart hstairs hset hreduced
    have hrows : r.rows = m.rows := by rw [rows_reduced? hr, hlast, hset.map_cleaned]
    rw [hr, Matrix.ext hrows (Prod.mk.inj hdims).2]

/-- **A second reduction changes nothing if and only if the first one has reached the form.** -/
theorem reduced?_twice_iff (heps : 0 < eps) (hone : eps ≤ 1) (hm : m.Shaped) :
    ∃ r, m.reduced? eps = some r ∧ (r.reduced? eps = some r ↔ IsReduced r.rows) ∧
      ((lastStage eps m).Unobstructed eps → r.reduced? eps = some r) := by
  obtain ⟨r, hr, hdims⟩ := reduced?_dims eps hm
  have hrows := rows_reduced? hr
  have hiff : r.reduced? eps = some r ↔ IsReduced r.rows := by
    rw [reduced?_eq_self_iff heps hone (hm.congr hdims), hrows]
    exact and_iff_left (settled_map_cleaned _)
  refine ⟨r, hr, hiff, fun hfree => hiff.2 ?_⟩
  rw [hrows, ← Stage.rows_tidied]
  exact hfree.isReduced_tidied (pivoted_lastStage heps m) hone

/-- An entry below the threshold is passed over, divided by a pivot that is just above it, and left in front
of that; the second reduction starts with it. -/
theorem reduced?_twice_iff_small_pivot :
    ((0 : ℚ) < 1 / 1000000000000 ∧ (1 / 1000000000000 : ℚ) ≤ 1) ∧
    ∃ m r r' : Matrix ℚ, m.rows = [[1 / 2000000000000, 1 / 500000000000]] ∧ r.rows = [[1 / 4, 1]] ∧
      r'.rows = [[1, 4]] ∧ m.Shaped ∧ m.reduced? (1 / 1000000000000) = some r ∧ ¬IsReduced r.rows ∧
      r.reduced? (1 / 1000000000000) ≠ some r ∧ r.reduced? (1 / 1000000000000) = some r' := by
  have heps : (0 : ℚ) < 1 / 1000000000000 := by decide +kernel
  have hone : (1 / 1000000000000 : ℚ) ≤ 1 := by decide +kernel
  let m : Matrix ℚ := ⟨[[1 / 2000000000000, 1 / 500000000000]], 2, by decide⟩
  let r : Matrix ℚ := ⟨[[1 / 4, 1]], 2, by decide⟩
  let r' : Matrix ℚ := ⟨[[1, 4]], 2, by decide⟩
  have hm : m.Shaped := shaped_iff.2 (by decide)
  have hr : m.reduced? (1 / 1000000000000) = some r := make?_eq_some_iff.2 (by decide +kernel)
  have hr' : r.reduced? (1 / 1000000000000) = some r' := make?_eq_some_iff.2 (by decide +kernel)
  have hnot : ¬IsReduced r.rows := by decide +kernel
  obtain ⟨first, hfirst, hiff, -⟩ := reduced?_twice_iff heps hone hm
  rw [Option.some.inj (hfirst.symm.trans hr)] at hiff
  exact ⟨⟨heps, hone⟩, m, r, r', rfl, rfl, rfl, hm, hr, hnot, fun h => hnot (hiff.1 h), hr'⟩

end Reckon.Matrix
