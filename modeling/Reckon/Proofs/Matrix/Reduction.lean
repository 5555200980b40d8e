import Mathlib.Order.WellFounded
import Reckon.Proofs.Matrix.InPlace
import Reckon.Proofs.Matrix.Shape

/-!
# The loops of a reduction

To reduce a matrix in place two loops work into each other.  The outer one goes down the rows, each of which
is to get a pivot; the inner one looks for it, down the rows from there on and then in the next column, and
may find that there is none in the whole matrix (`Reduction.round`).  A round is one look at an entry, with the
clearing of its column if the entry is a pivot.

Each round either goes on to a later column or to a later row of the same column (`Reduction.left`), so that
the loops end.  They stay inside of the matrix, because every row keeps its length, and a pivot is an entry
that is not negligible, so that it can be divided by (`Reduction.round_sound`).  What the rounds keep besides
is the outcome: from wherever they stand, `reduceFrom` comes to the same rows.
-/

namespace Reckon.Matrix.InPlace

open Checked (get divide)

/-- Where the loops stand. -/
structure Reduction (α : Type) where
  rows : List (List α)
  /-- The column in which a pivot is looked for. -/
  lead : Nat
  /-- The row that the pivot is for; those above have theirs. -/
  target : Nat
  /-- The row that is looked at. -/
  row : Nat

namespace Reduction

variable {α : Type} [Scalar α]

section Loops

variable (isZero : α → Bool) (eps : α) (height : Nat) (width : Int)

/-- Looks for the pivot of the next row, unless there is no such row or no column left. -/
def enter (rows : List (List α)) (lead target : Nat) : Round (Reduction α) (List (List α)) :=
  if target < height ∧ (lead : Int) < width then .next ⟨rows, lead, target, target⟩ else .done rows

/-- Clears the column in a row, unless it is the one with the pivot. -/
def clearOther (lead target : Nat) (rows : List (List α)) (r : Nat) : Except Breach (List (List α)) :=
  if r = target then .ok rows
  else do
    let row ← get rows r
    let factor ← get row lead
    let pivotRow ← get rows target
    put rows r (subtractScaled row factor pivotRow)

/-- Clears the column in all rows but the one with the pivot. -/
def clearOthers (lead target : Nat) (rows : List (List α)) : Except Breach (List (List α)) :=
  (List.range' 0 height).foldlM (clearOther lead target) rows

/-- Passes an entry over: there is another row to look at, or the next column, or no column at all. -/
def passOver (s : Reduction α) : Round (Reduction α) (List (List α)) :=
  if s.row + 1 = height then
    if (s.lead : Int) + 1 = width then .done s.rows
    else .next ⟨s.rows, s.lead + 1, s.target, s.target⟩
  else .next ⟨s.rows, s.lead, s.target, s.row + 1⟩

/-- Takes an entry as the pivot: its row comes to its place and is divided by it, and the column is
cleared. -/
def takePivot (s : Reduction α) : Except Breach (Round (Reduction α) (List (List α))) := do
  let rows ← swap s.rows s.row s.target
  let pivotRow ← get rows s.target
  let pivot ← get pivotRow s.lead
  let scaled ← pivotRow.mapM (divide isZero · pivot)
  let rows ← put rows s.target scaled
  let rows ← clearOthers height s.lead s.target rows
  return enter height width rows (s.lead + 1) (s.target + 1)

/-- One look at an entry. -/
def round (s : Reduction α) : Except Breach (Round (Reduction α) (List (List α))) := do
  let x ← cell s.rows s.row s.lead
  if Scalar.negligible eps x then return passOver height width s else takePivot isZero height width s

/-- How many columns come after the one that is looked at, and how many rows after the one. -/
def left (s : Reduction α) : Nat × Nat :=
  ((width - s.lead).toNat, height - s.row)

/-- Fewer columns are left, or as many columns and fewer rows. -/
def Nearer (t s : Reduction α) : Prop :=
  Prod.Lex (· < ·) (· < ·) (t.left height width) (s.left height width)

end Loops

/-- The reduction of a matrix before its first round. -/
def start (m : Matrix α) : Round (Reduction α) (List (List α)) :=
  enter m.rowCount m.colCount m.rows 0 0

omit [Scalar α] in
theorem nearer_wf (height : Nat) (width : Int) :
    WellFounded (Nearer height width : Reduction α → Reduction α → Prop) :=
  InvImage.wf (left height width) (WellFounded.prod_lex Nat.lt_wfRel.wf Nat.lt_wfRel.wf)

/-! ## What is still to come -/

variable {isZero : α → Bool} {eps : α} {height width n lead target : Nat}
  {above todo others : List (List α)} {pivotRow : List α} {final : List (List α)} {s : Reduction α}

/-- A column in which all entries are negligible is passed over. -/
theorem findPivot?_passed (hlead : lead < width)
    (h : ∀ r ∈ todo, Scalar.negligible eps (entry r lead) = true) :
    findPivot? eps todo lead (width - lead) = findPivot? eps todo (lead + 1) (width - (lead + 1)) := by
  have hnone : (todo.findIdx? fun row => !Scalar.negligible eps (entry row lead)) = none :=
    List.findIdx?_eq_none_iff.2 fun r hr => by rw [h r hr]; rfl
  obtain ⟨k, hk⟩ : ∃ k, width - lead = k + 1 := ⟨width - lead - 1, by omega⟩
  rw [hk, findPivot?, hnone, show width - (lead + 1) = k by omega]

theorem reduceFrom_passed (hlead : lead < width)
    (h : ∀ r ∈ todo, Scalar.negligible eps (entry r lead) = true) :
    reduceFrom eps width n above todo lead = reduceFrom eps width n above todo (lead + 1) := by
  cases n with
  | zero => rfl
  | succ n =>
    cases todo with
    | nil => rfl
    | cons first rest => rw [reduceFrom, reduceFrom, findPivot?_passed hlead h]

/-- Without a row or without a column there is nothing to do. -/
theorem reduceFrom_ended (h : n = 0 ∨ width ≤ lead) :
    reduceFrom eps width n above todo lead = above ++ todo := by
  cases n with
  | zero => rfl
  | succ n =>
    cases todo with
    | nil => rfl
    | cons first rest =>
      rw [reduceFrom, Nat.sub_eq_zero_of_le (by omega)]
      rfl

/-- The first entry of a column that is not negligible is the pivot. -/
theorem findPivot?_found {i : Nat} (hlead : lead < width) (hi : i < todo.length)
    (hpivot : Scalar.negligible eps (entry todo[i] lead) = false)
    (h : ∀ r ∈ todo.take i, Scalar.negligible eps (entry r lead) = true) :
    findPivot? eps todo lead (width - lead) = some (lead, i) := by
  have hfound : (todo.findIdx? fun row => !Scalar.negligible eps (entry row lead)) = some i := by
    refine List.findIdx?_eq_some_iff_getElem.2 ⟨hi, by rw [hpivot]; rfl, fun j hj => ?_⟩
    rw [h _ (List.mem_take_iff_getElem.2 ⟨j, by omega, rfl⟩)]
    decide
  obtain ⟨k, hk⟩ : ∃ k, width - lead = k + 1 := ⟨width - lead - 1, by omega⟩
  rw [hk, findPivot?, hfound]

/-! ## One round -/

/-- What becomes of a row when the column is cleared by means of the one with the pivot. -/
def clearing (lead target : Nat) (pivotRow : List α) (r : Nat) (row : List α) : List α :=
  if r = target then row else clearAt lead pivotRow row

/-- One row more is cleared. -/
theorem clearOther_eq_ok {rows : List (List α)} {row : List α} {j : Nat} (hrow : rows[j]? = some row)
    (hlead : lead < row.length) (htarget : rows[target]? = some pivotRow) :
    clearOther lead target (treated (clearing lead target pivotRow) 0 j rows) j =
      .ok (treated (clearing lead target pivotRow) 0 (j + 1) rows) := by
  have hhere : (treated (clearing lead target pivotRow) 0 j rows)[j]? = some row := by
    rw [getElem?_treated_of_not (by omega), hrow]
  have hpivotRow : (treated (clearing lead target pivotRow) 0 j rows)[target]? = some pivotRow := by
    simp [treated, htarget, clearing]
  have hset : (treated (clearing lead target pivotRow) 0 j rows).set j
      (clearing lead target pivotRow j row) =
        treated (clearing lead target pivotRow) 0 (j + 1) rows := by
    have hzero : rows[0 + j]? = some row := by rwa [Nat.zero_add]
    simpa only [Nat.zero_add] using set_treated hzero
  obtain ⟨hj, hget⟩ := List.getElem?_eq_some_iff.1 hhere
  rw [clearOther, ← hset]
  by_cases hjt : j = target
  · rw [if_pos hjt, clearing, if_pos hjt, ← hget, List.set_getElem_self]
  · rw [if_neg hjt, get_of_some hhere, ok_bind, Checked.get_eq_ok hlead Scalar.zero, ok_bind,
      get_of_some hpivotRow, ok_bind, put_eq_ok hj, clearing, if_neg hjt]
    rfl

theorem treated_clearing (htarget : above.length = target)
    (hheight : height = (above ++ pivotRow :: others).length) :
    treated (clearing lead target pivotRow) 0 height (above ++ pivotRow :: others) =
      above.map (clearAt lead pivotRow) ++ pivotRow :: others.map (clearAt lead pivotRow) := by
  refine List.ext_getElem (by simp) fun i hi _ => ?_
  rw [length_treated] at hi
  rw [getElem_treated hi, if_pos (by omega)]
  rcases Nat.lt_trichotomy i target with hlt | rfl | hgt
  · simp [clearing, List.getElem_append_left, htarget, hlt, Nat.ne_of_lt hlt]
  · simp [clearing, List.getElem_append_right, htarget]
  · obtain ⟨k, rfl⟩ : ∃ k, i = target + (k + 1) := ⟨i - target - 1, by omega⟩
    simp [clearing, List.getElem_append_right, htarget]

/-- The loop over the other rows clears them all. -/
theorem clearOthers_eq_ok (htarget : above.length = target)
    (hheight : height = (above ++ pivotRow :: others).length)
    (hwidth : ∀ r ∈ above ++ pivotRow :: others, lead < r.length) :
    clearOthers height lead target (above ++ pivotRow :: others) =
      .ok (above.map (clearAt lead pivotRow) ++ pivotRow :: others.map (clearAt lead pivotRow)) := by
  have hpivotRow : (above ++ pivotRow :: others)[target]? = some pivotRow := by simp [← htarget]
  have hround : ∀ j < height,
      clearOther lead target (treated (clearing lead target pivotRow) 0 j (above ++ pivotRow :: others))
          (0 + j) =
        .ok (treated (clearing lead target pivotRow) 0 (j + 1) (above ++ pivotRow :: others)) := by
    intro j hj
    rw [Nat.zero_add]
    have hrow := List.getElem?_eq_getElem (hheight ▸ hj)
    exact clearOther_eq_ok hrow (hwidth _ (List.mem_of_getElem? hrow)) hpivotRow
  have hloop := foldlM_range' _ height hround
  rwa [treated_zero, treated_clearing htarget hheight] at hloop

/-- What taking a pivot does, once its row stands in its place. -/
theorem takePivot_eq_ok {chosen : List α} (hswap : swap s.rows s.row s.target = .ok (above ++ chosen :: others))
    (habove : Rectangle s.target width above) (hchosen : chosen.length = width)
    (hothers : Rectangle n width others) (hheight : height = s.target + (n + 1)) (hlead : s.lead < width)
    (hpivot : isZero (entry chosen s.lead) = false) :
    takePivot isZero height width s =
      .ok (enter height width
        (above.map (clearAt s.lead (chosen.map (· / entry chosen s.lead))) ++
          chosen.map (· / entry chosen s.lead) ::
            others.map (clearAt s.lead (chosen.map (· / entry chosen s.lead))))
        (s.lead + 1) (s.target + 1)) := by
  have hget : get (above ++ chosen :: others) s.target = .ok chosen :=
    get_of_some (by simp [← habove.height_eq])
  have hentry : get chosen s.lead = .ok (entry chosen s.lead) := Checked.get_eq_ok (hchosen ▸ hlead) _
  rw [takePivot, hswap, ok_bind, hget, ok_bind, hentry, ok_bind,
    mapM_eq_ok fun x _ => Checked.divide_eq_ok hpivot x, ok_bind]
  generalize hscaled : chosen.map (· / entry chosen s.lead) = scaled
  have hwidth : ∀ r ∈ above ++ scaled :: others, s.lead < r.length := by
    have hlength : scaled.length = width := by rw [← hscaled, List.length_map, hchosen]
    intro r hr
    rcases List.mem_append.1 hr with hr | hr
    · exact habove.width_eq r hr ▸ hlead
    · rcases List.mem_cons.1 hr with rfl | hr
      · exact hlength ▸ hlead
      · exact hothers.width_eq r hr ▸ hlead
  have hput : put (above ++ chosen :: others) s.target scaled = .ok (above ++ scaled :: others) := by
    rw [put_eq_ok (by simp [habove.height_eq]), List.set_append_right _ _ (by rw [habove.height_eq]),
      habove.height_eq, Nat.sub_self, List.set_cons_zero]
  have hcount : height = (above ++ scaled :: others).length := by
    rw [List.length_append, List.length_cons, habove.height_eq, hothers.height_eq, hheight]
  rw [hput, ok_bind, clearOthers_eq_ok habove.height_eq hcount hwidth, ok_bind]
  rfl

/-- The loops stand inside of the matrix: the rows are those that have their pivot and those that have not, and
reducing these from here on gives the outcome.  In the column that is looked at, the rows down to the one that
is looked at have been passed over. -/
structure Stands (eps : α) (height width : Nat) (final above todo : List (List α)) (s : Reduction α) :
    Prop where
  rows : s.rows = above ++ todo
  finished : Rectangle s.target width above
  waiting : Rectangle (height - s.target) width todo
  target_le : s.target ≤ s.row
  row_lt : s.row < height
  lead_lt : s.lead < width
  passed : ∀ r ∈ todo.take (s.row - s.target), Scalar.negligible eps (entry r s.lead) = true
  final_eq : reduceFrom eps width (height - s.target) above todo s.lead = final

/-- The loops stand inside of the matrix, with some of the rows finished. -/
def Standing (eps : α) (height width : Nat) (final : List (List α)) (s : Reduction α) : Prop :=
  ∃ above todo, Stands eps height width final above todo s

namespace Stands

theorem standing (h : Stands eps height width final above todo s) : Standing eps height width final s :=
  ⟨above, todo, h⟩

theorem rectangle (h : Stands eps height width final above todo s) : Rectangle height width s.rows := by
  have hheight : s.target + (height - s.target) = height := by
    have hle := h.target_le
    have hlt := h.row_lt
    omega
  rw [h.rows]
  exact hheight ▸ h.finished.append h.waiting

/-- Before the first look for a pivot. -/
theorem of_enter (habove : Rectangle target width above) (htodo : Rectangle (height - target) width todo)
    (htarget : target < height) (hlead : lead < width)
    (hfinal : reduceFrom eps width (height - target) above todo lead = final) :
    Stands eps height width final above todo ⟨above ++ todo, lead, target, target⟩ where
  rows := rfl
  finished := habove
  waiting := htodo
  target_le := Nat.le_refl _
  row_lt := htarget
  lead_lt := hlead
  passed := by simp
  final_eq := hfinal

/-- Whether there is another look for a pivot or not, the outcome is the same. -/
theorem sound_enter (hrows : Rectangle target width above) (htodo : Rectangle (height - target) width todo)
    (hfinal : reduceFrom eps width (height - target) above todo lead = final) (hlead : s.lead < lead)
    (hlt : s.lead < width) :
    Sound (Standing eps height width final) (Nearer height width) final s
      (.ok (enter height width (above ++ todo) lead target)) := by
  unfold enter
  split
  · rename_i h
    refine .next (of_enter hrows htodo h.1 (by omega) hfinal).standing (.left _ _ ?_)
    show ((width : Int) - lead).toNat < ((width : Int) - s.lead).toNat
    omega
  · rename_i h
    refine .done ?_
    rw [← hfinal, reduceFrom_ended (by omega)]

/-- The entry that is looked at is there. -/
theorem exists_entry (h : Stands eps height width final above todo s) :
    ∃ hi : s.row - s.target < todo.length,
      cell s.rows s.row s.lead = .ok (entry todo[s.row - s.target] s.lead) := by
  have hi : s.row - s.target < todo.length := by
    have hlt := h.row_lt
    have hle := h.target_le
    rw [h.waiting.height_eq]
    omega
  have hrow : s.rows[s.row]? = some todo[s.row - s.target] := by
    have habove := h.finished.height_eq
    rw [h.rows, List.getElem?_append_right (habove ▸ h.target_le), habove, List.getElem?_eq_getElem hi]
  have hwidth := h.waiting.width_eq _ (List.getElem_mem hi)
  exact ⟨hi, cell_eq_ok hrow (hwidth ▸ h.lead_lt)⟩

/-- It is sound to pass an entry over that is negligible. -/
theorem sound_passOver (h : Stands eps height width final above todo s)
    (hi : s.row - s.target < todo.length)
    (hneg : Scalar.negligible eps (entry todo[s.row - s.target] s.lead) = true) :
    Sound (Standing eps height width final) (Nearer height width) final s
      (.ok (passOver height width s)) := by
  have hle := h.target_le
  have hlead := h.lead_lt
  have hpassed : ∀ r ∈ todo.take (s.row + 1 - s.target), Scalar.negligible eps (entry r s.lead) = true := by
    rw [show s.row + 1 - s.target = s.row - s.target + 1 by omega, List.take_succ_eq_append_getElem hi]
    exact List.forall_mem_append.2 ⟨h.passed, List.forall_mem_singleton.2 hneg⟩
  unfold passOver
  split
  · rename_i hlast
    -- All entries of the column have been passed over.
    have hall : ∀ r ∈ todo, Scalar.negligible eps (entry r s.lead) = true := by
      rwa [List.take_of_length_le (by rw [h.waiting.height_eq]; omega)] at hpassed
    have hfinal := h.final_eq
    rw [reduceFrom_passed hlead hall] at hfinal
    split
    · rename_i hwidth
      refine .done ?_
      rw [← hfinal, reduceFrom_ended (by omega), h.rows]
    · rename_i hwidth
      have hnext := of_enter h.finished h.waiting (Nat.lt_of_le_of_lt hle h.row_lt) (by omega) hfinal
      rw [← h.rows] at hnext
      refine .next hnext.standing (.left _ _ ?_)
      show ((width : Int) - (s.lead + 1 : Nat)).toNat < ((width : Int) - s.lead).toNat
      omega
  · rename_i hlast
    have hrow := h.row_lt
    have hnext : Stands eps height width final above todo ⟨s.rows, s.lead, s.target, s.row + 1⟩ :=
      ⟨h.rows, h.finished, h.waiting, Nat.le_succ_of_le hle, by dsimp only; omega, hlead, hpassed, h.final_eq⟩
    refine .next hnext.standing (.right _ ?_)
    show height - (s.row + 1) < height - s.row
    omega

/-- It is sound to take an entry as the pivot that is not. -/
theorem sound_takePivot (hzero : ∀ x, isZero x = true → Scalar.negligible eps x = true)
    (h : Stands eps height width final above todo s) (hi : s.row - s.target < todo.length)
    (hneg : Scalar.negligible eps (entry todo[s.row - s.target] s.lead) = false) :
    Sound (Standing eps height width final) (Nearer height width) final s
      (takePivot isZero height width s) := by
  have hrow := h.row_lt
  have hle := h.target_le
  obtain ⟨n, hn⟩ : ∃ n, height - s.target = n + 1 := ⟨height - s.target - 1, by omega⟩
  have hfound := findPivot?_found h.lead_lt hi hneg h.passed
  have hlength := h.waiting.width_eq _ (List.getElem_mem hi)
  obtain ⟨first, rest, rfl⟩ := List.exists_cons_of_length_pos (Nat.zero_lt_of_lt hi)
  obtain ⟨chosen, others, hgetD, hset, hchosen, hcount, hmem, hswap⟩ := exists_swap above hi
  rw [h.finished.height_eq, Nat.add_sub_cancel' hle, ← h.rows] at hswap
  rw [hchosen] at hlength hneg
  have hothers : Rectangle n width others := by
    refine ⟨?_, fun r hr => h.waiting.width_eq r (hmem r (List.mem_cons_of_mem chosen hr))⟩
    have hrest := h.waiting.height_eq
    rw [List.length_cons] at hrest
    omega
  have hfinal := h.final_eq
  rw [hn, reduceFrom, hfound] at hfinal
  dsimp only at hfinal
  rw [hgetD, hset] at hfinal
  have hpivot : isZero (entry chosen s.lead) = false :=
    Bool.eq_false_iff.2 fun hz => by rw [hzero _ hz] at hneg; cases hneg
  rw [takePivot_eq_ok hswap h.finished hlength hothers (by omega) h.lead_lt hpivot, List.append_cons]
  have hpivotRow : (chosen.map (· / entry chosen s.lead)).length = width := by rw [List.length_map, hlength]
  have hdone : Rectangle 1 width [chosen.map (· / entry chosen s.lead)] :=
    ⟨rfl, List.forall_mem_singleton.2 hpivotRow⟩
  have hleft : height - (s.target + 1) = n := by omega
  refine sound_enter ((h.finished.clearAt s.lead hpivotRow).append hdone) ?_ ?_ (Nat.lt_succ_self _) h.lead_lt
  · exact hleft ▸ hothers.clearAt s.lead hpivotRow
  · exact hleft ▸ hfinal

end Stands

/-- **A look at an entry is sound.** -/
theorem round_sound (hzero : ∀ x, isZero x = true → Scalar.negligible eps x = true)
    (h : Standing eps height width final s) :
    Sound (Standing eps height width final) (Nearer height width) final s
      (round isZero eps height width s) := by
  obtain ⟨above, todo, h⟩ := h
  obtain ⟨hi, hcell⟩ := h.exists_entry
  rw [round, hcell, ok_bind]
  cases hneg : Scalar.negligible eps (entry todo[s.row - s.target] s.lead) with
  | true => exact h.sound_passOver hi hneg
  | false => exact h.sound_takePivot hzero hi hneg

end Reduction

end Reckon.Matrix.InPlace
