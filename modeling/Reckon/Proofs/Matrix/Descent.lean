import Reckon.Proofs.Matrix.InPlace
import Reckon.Proofs.Matrix.Shape

/-!
# The loop of a determinant

A determinant is computed in place, column by column down the diagonal.  In each column the entry of greatest
magnitude from the diagonal on is looked for and its row brought up, and then the rows below are changed entry by
entry, those of the column of the pivot included (`Descent.round`).  `determinantFrom` drops each column that has
been dealt with, and with it these entries.

They are not read again: what the loop reads in a later column is what the function is given there, the rows from
the diagonal on without their first columns (`Descent.Stands`).  So the loop comes to the same result, and it reads
no entry outside of a square matrix and divides by no zero (`Descent.round_sound`).
-/

namespace Reckon.Matrix.InPlace

open Checked (get divide)

/-- Where the loop stands. -/
structure Descent (α : Type) where
  rows : List (List α)
  /-- The column that is dealt with. -/
  col : Nat
  /-- The product of the pivots so far, with its sign. -/
  det : α

namespace Descent

variable {α : Type} [Scalar α]

section Loops

variable (isZero : α → Bool) (eps : α) (size : Nat)

/-- Goes on with a column, unless there is none left. -/
def enter (rows : List (List α)) (col : Nat) (det : α) : Round (Descent α) α :=
  if col < size then .next ⟨rows, col, det⟩ else .done det

/-- Compares the entry of one row more with the greatest magnitude so far. -/
def compare (col : Nat) (rows : List (List α)) (best : α × Nat) (r : Nat) : Except Breach (α × Nat) := do
  let x ← cell rows r col
  return if Scalar.lt best.1 (Scalar.magnitude x) then (Scalar.magnitude x, r) else best

/-- The first row from the diagonal on with the greatest magnitude in the column. -/
def greatest (col : Nat) (rows : List (List α)) : Except Breach Nat := do
  let x ← cell rows col col
  let best ← (List.range' (col + 1) (size - (col + 1))).foldlM (compare col rows) (Scalar.magnitude x, col)
  return best.2

/-- Changes one entry of a row. -/
def clearEntry (col r : Nat) (factor : α) (rows : List (List α)) (c : Nat) :
    Except Breach (List (List α)) := do
  let x ← cell rows r c
  let y ← cell rows col c
  putCell rows r c (x - factor * y)

/-- Changes a row from the column on. -/
def clearRow (col : Nat) (rows : List (List α)) (r : Nat) : Except Breach (List (List α)) := do
  let x ← cell rows r col
  let pivot ← cell rows col col
  let factor ← divide isZero x pivot
  (List.range' col (size - col)).foldlM (clearEntry col r factor) rows

/-- Changes the rows below the diagonal. -/
def clearBelow (col : Nat) (rows : List (List α)) : Except Breach (List (List α)) :=
  (List.range' (col + 1) (size - (col + 1))).foldlM (clearRow isZero size col) rows

/-- Brings the row with the greatest entry up, unless it is there. -/
def bringUp (col place : Nat) (rows : List (List α)) : Except Breach (List (List α)) :=
  if place = col then .ok rows else swap rows place col

/-- Deals with a column. -/
def round (s : Descent α) : Except Breach (Round (Descent α) α) := do
  let place ← greatest size s.col s.rows
  let x ← cell s.rows place s.col
  if Scalar.negligible eps x then return .done Scalar.zero
  else
    let rows ← bringUp s.col place s.rows
    let pivot ← cell rows s.col s.col
    let cleared ← clearBelow isZero size s.col rows
    return enter size cleared (s.col + 1) ((if place = s.col then s.det else -s.det) * pivot)

/-- Fewer columns are left. -/
def Nearer (t s : Descent α) : Prop :=
  size - t.col < size - s.col

end Loops

/-- The determinant of a matrix before the first column. -/
def start (m : Matrix α) : Round (Descent α) α :=
  enter m.rowCount m.rows 0 Scalar.one

omit [Scalar α] in
theorem nearer_wf (size : Nat) : WellFounded (Nearer size : Descent α → Descent α → Prop) :=
  InvImage.wf (fun s : Descent α => size - s.col) Nat.lt_wfRel.wf

variable {isZero : α → Bool} {eps : α} {size col n : Nat} {above others rest : List (List α)}
  {first pivotRow row : List α}

/-! ## The greatest entry of a column -/

theorem headMagnitude_drop (row : List α) (col : Nat) :
    headMagnitude (row.drop col) = Scalar.magnitude (entry row col) := by
  unfold headMagnitude entry
  rw [List.headD_eq_head?_getD, List.head?_drop, List.getD_eq_getElem?_getD]

/-- The places that are counted may start anywhere. -/
theorem greatestFrom_add (best : α) (place i k : Nat) (rows : List (List α)) :
    greatestFrom best (k + place) (k + i) rows = k + greatestFrom best place i rows := by
  induction rows generalizing best place i with
  | nil => rfl
  | cons row rest ih =>
    rw [greatestFrom, greatestFrom]
    split
    · exact ih _ i (i + 1)
    · exact ih _ place (i + 1)

/-- Comparing all entries below finds the greatest one. -/
theorem compare_eq_ok {rows : List (List α)} (hrows : rows = above ++ rest)
    (hcol : ∀ r ∈ rest, col < r.length) (best : α) (place : Nat) :
    ∃ b, (List.range' above.length rest.length).foldlM (compare col rows) (best, place) =
      .ok (b, greatestFrom best place above.length (rest.map (List.drop col))) := by
  induction rest generalizing above best place with
  | nil => exact ⟨best, rfl⟩
  | cons row rest ih =>
    have hcell : cell rows above.length col = .ok (entry row col) :=
      cell_eq_ok (by simp [hrows]) (hcol row List.mem_cons_self)
    have hrest : rows = (above ++ [row]) ++ rest := by rw [hrows, List.append_cons]
    have hnext := fun best place => ih hrest (fun r hr => hcol r (List.mem_cons_of_mem row hr)) best place
    rw [List.length_append, List.length_singleton] at hnext
    rw [List.length_cons, List.range'_succ, List.foldlM_cons, compare, hcell, ok_bind, List.map_cons, greatestFrom,
      headMagnitude_drop]
    dsimp only
    split
    · exact hnext _ _
    · exact hnext _ _

/-- The row that is found has the place that it has among the rows from the diagonal on. -/
theorem greatest_eq_ok {rows : List (List α)} (hrows : rows = above ++ first :: rest) (hcol : above.length = col)
    (hsize : size = col + (rest.length + 1)) (hlength : ∀ r ∈ first :: rest, col < r.length) :
    greatest size col rows =
      .ok (col + greatestFrom (headMagnitude (first.drop col)) 0 1 (rest.map (List.drop col))) := by
  obtain ⟨hfirst, hrest⟩ := List.forall_mem_cons.1 hlength
  have hcell : cell rows col col = .ok (entry first col) := cell_eq_ok (by simp [hrows, ← hcol]) hfirst
  have hbelow : rows = above ++ [first] ++ rest := hrows.trans (List.append_cons _ _ _)
  obtain ⟨b, hloop⟩ := compare_eq_ok hbelow hrest (Scalar.magnitude (entry first col)) col
  rw [List.length_append, List.length_singleton, hcol] at hloop
  have hcount : size - (col + 1) = rest.length := by omega
  rw [greatest, hcell, ok_bind, hcount, hloop, ok_bind, headMagnitude_drop, ← greatestFrom_add]
  rfl

/-- Choosing a pivot commutes with dropping columns. -/
theorem choosePivot_drop (first : List α) (rest : List (List α)) (col : Nat) {i : Nat}
    (hi : greatestFrom (headMagnitude (first.drop col)) 0 1 (rest.map (List.drop col)) = i) :
    choosePivot (first.drop col) (rest.map (List.drop col)) =
      (((first :: rest).getD i first).drop col, (((first :: rest).set i first).drop 1).map (List.drop col),
        decide (i ≠ 0)) := by
  unfold choosePivot
  rw [hi]
  cases i with
  | zero => rfl
  | succ i =>
    have hgetD : (rest.map (List.drop col)).getD i (first.drop col) = (rest.getD i first).drop col := by
      simp only [List.getD_eq_getElem?_getD, List.getElem?_map]
      cases rest[i]? <;> rfl
    simp only [hgetD, List.set_cons_succ, List.getD_cons_succ, List.drop_succ_cons, List.drop_zero,
      List.map_set]
    rfl

/-! ## Clearing a column -/

/-- A row below the diagonal after it was changed. -/
def lowered (size col : Nat) (pivotRow row : List α) : List α :=
  treated (fun c x => x - entry row col / entry pivotRow col * entry pivotRow c) col (size - col) row

@[simp]
theorem length_lowered : (lowered size col pivotRow row).length = row.length :=
  length_treated

/-- Entry by entry a row is changed as a whole. -/
theorem clearRow_eq_ok {rows : List (List α)} {r : Nat} (hrow : rows[r]? = some row) (hlength : row.length = size)
    (hpivotRow : rows[col]? = some pivotRow) (hpivotLength : pivotRow.length = size) (hcol : col < size)
    (hne : r ≠ col) (hpivot : isZero (entry pivotRow col) = false) :
    clearRow isZero size col rows r = .ok (rows.set r (lowered size col pivotRow row)) := by
  obtain ⟨hr, hget⟩ := List.getElem?_eq_some_iff.1 hrow
  have hx : cell rows r col = .ok (entry row col) := cell_eq_ok hrow (hlength ▸ hcol)
  have hy : cell rows col col = .ok (entry pivotRow col) := cell_eq_ok hpivotRow (hpivotLength ▸ hcol)
  generalize hf : (fun c x => x - entry row col / entry pivotRow col * entry pivotRow c) = f
  have hround : ∀ j < size - col,
      clearEntry col r (entry row col / entry pivotRow col) (rows.set r (treated f col j row)) (col + j) =
        .ok (rows.set r (treated f col (j + 1) row)) := by
    intro j hj
    have hc : col + j < row.length := by omega
    have hc' : col + j < (treated f col j row).length := by rwa [length_treated]
    have hself : (rows.set r (treated f col j row))[r]? = some (treated f col j row) :=
      List.getElem?_set_self hr
    have hother : (rows.set r (treated f col j row))[col]? = some pivotRow := by
      rw [List.getElem?_set_ne hne, hpivotRow]
    have hc'' : row[col + j]? = some row[col + j] := List.getElem?_eq_getElem hc
    have hentry : entry (treated f col j row) (col + j) = row[col + j] := by
      rw [entry, List.getD_eq_getElem?_getD, getElem?_treated_of_not (by omega), hc'']
      rfl
    rw [clearEntry, cell_eq_ok hself hc', ok_bind, cell_eq_ok hother (by omega), ok_bind,
      putCell_eq_ok hself hc', List.set_set, hentry, ← set_treated hc'', ← hf]
  have hloop := foldlM_range' _ (size - col) hround
  rw [treated_zero, ← hget, List.set_getElem_self, hget] at hloop
  rw [clearRow, hx, ok_bind, hy, ok_bind, Checked.divide_eq_ok hpivot, ok_bind, hloop, ← hf]
  rfl

/-- The loop over the rows below the diagonal changes them all. -/
theorem clearBelow_eq_ok {rows : List (List α)} (hrows : rows = above ++ pivotRow :: others)
    (hcol : above.length = col) (hsize : size = col + (others.length + 1))
    (hlength : ∀ r ∈ pivotRow :: others, r.length = size) (hpivot : isZero (entry pivotRow col) = false) :
    clearBelow isZero size col rows = .ok (above ++ pivotRow :: others.map (lowered size col pivotRow)) := by
  obtain ⟨hpivotLength, hothers⟩ := List.forall_mem_cons.1 hlength
  have hpivotRow : rows[col]? = some pivotRow := by simp [hrows, ← hcol]
  have hround : ∀ j < size - (col + 1),
      clearRow isZero size col (treated (fun _ => lowered size col pivotRow) (col + 1) j rows) (col + 1 + j) =
        .ok (treated (fun _ => lowered size col pivotRow) (col + 1) (j + 1) rows) := by
    intro j hj
    have hj' : j < others.length := by omega
    have hrow : rows[col + 1 + j]? = some others[j] := by
      rw [hrows, List.getElem?_append_right (by omega), hcol, show col + 1 + j - col = j + 1 by omega,
        List.getElem?_cons_succ, List.getElem?_eq_getElem hj']
    -- The row of the pivot and the one that is next are as they were.
    have hrow' : (treated (fun _ => lowered size col pivotRow) (col + 1) j rows)[col + 1 + j]? =
        some others[j] := by
      rw [getElem?_treated_of_not (by omega), hrow]
    have hpivotRow' : (treated (fun _ => lowered size col pivotRow) (col + 1) j rows)[col]? = some pivotRow := by
      rw [getElem?_treated_of_not (by omega), hpivotRow]
    rw [clearRow_eq_ok hrow' (hothers _ (List.getElem_mem hj')) hpivotRow' hpivotLength (by omega) (by omega)
      hpivot]
    exact congrArg Except.ok (set_treated hrow)
  have hloop := foldlM_range' _ (size - (col + 1)) hround
  rw [treated_zero] at hloop
  rw [clearBelow, hloop, hrows, List.append_cons,
    treated_append _ (by rw [List.length_append, hcol]; rfl) (by omega), ← List.append_cons]

/-- Behind the column a changed row is the row that the function goes on with. -/
theorem drop_lowered (hpivotRow : pivotRow.length = size) (hrow : row.length = size) (hcol : col < size) :
    (lowered size col pivotRow row).drop (col + 1) =
      clearHead (entry pivotRow col) (pivotRow.drop (col + 1)) (row.drop col) := by
  have hcons : row.drop col = entry row col :: row.drop (col + 1) := by
    rw [List.drop_eq_getElem_cons (hrow ▸ hcol), entry_eq_getElem (hrow ▸ hcol)]
  rw [hcons]
  refine List.ext_getElem (by simp [clearHead, subtractScaled, hpivotRow, hrow]) fun i hi _ => ?_
  rw [List.length_drop, length_lowered] at hi
  have hi' : col + 1 + i < row.length := by omega
  have hentry : entry pivotRow (col + 1 + i) = pivotRow[col + 1 + i] := entry_eq_getElem (by omega)
  simp only [clearHead, subtractScaled, List.getElem_zipWith, List.getElem_drop]
  unfold lowered
  rw [getElem_treated hi', if_pos (by omega), hentry]

/-- What the function does with the rows from the diagonal on, without the columns dealt with. -/
theorem determinantFrom_drop {i : Nat} {det : α}
    (hi : greatestFrom (headMagnitude (first.drop col)) 0 1 (rest.map (List.drop col)) = i)
    (hchosen : (first :: rest).getD i first = pivotRow) (hothers : ((first :: rest).set i first).drop 1 = others)
    (hlength : ∀ r ∈ pivotRow :: others, r.length = size) (hcol : col < size) :
    determinantFrom eps (n + 1) det ((first :: rest).map (List.drop col)) =
      if Scalar.negligible eps (entry pivotRow col) then Scalar.zero
      else determinantFrom eps n ((if i = 0 then det else -det) * entry pivotRow col)
        ((others.map (lowered size col pivotRow)).map (List.drop (col + 1))) := by
  obtain ⟨hpivot, hrows⟩ := List.forall_mem_cons.1 hlength
  have hcons : pivotRow.drop col = entry pivotRow col :: pivotRow.drop (col + 1) := by
    rw [List.drop_eq_getElem_cons (hpivot ▸ hcol), entry_eq_getElem (hpivot ▸ hcol)]
  have hlowered : (others.map (List.drop col)).map (clearHead (entry pivotRow col) (pivotRow.drop (col + 1))) =
      (others.map (lowered size col pivotRow)).map (List.drop (col + 1)) := by
    rw [List.map_map, List.map_map]
    exact List.map_congr_left fun r hr => (drop_lowered hpivot (hrows r hr) hcol).symm
  have hpivotRow := choosePivot_drop first rest col hi
  rw [hchosen, hothers, hcons] at hpivotRow
  rw [List.map_cons, determinantFrom_cons hpivotRow, hlowered]
  cases i <;> rfl

/-! ## One column -/

/-- The loop stands in a square matrix, and `determinantFrom` comes to the result from the rows that are left
without the columns that have been dealt with. -/
structure Stands (eps : α) (size : Nat) (result : α) (above todo : List (List α)) (s : Descent α) : Prop where
  rows : s.rows = above ++ todo
  finished : Rectangle s.col size above
  waiting : Rectangle (size - s.col) size todo
  col_lt : s.col < size
  result_eq : determinantFrom eps (size - s.col) s.det (todo.map (List.drop s.col)) = result

/-- The loop stands in a square matrix, with some of the rows finished. -/
def Standing (eps : α) (size : Nat) (result : α) (s : Descent α) : Prop :=
  ∃ above todo, Stands eps size result above todo s

variable {todo : List (List α)} {result det : α} {s : Descent α}

theorem Stands.rectangle (h : Stands eps size result above todo s) : Rectangle size size s.rows := by
  have hall := h.finished.append h.waiting
  rwa [Nat.add_sub_cancel' (Nat.le_of_lt h.col_lt), ← h.rows] at hall

/-- Whether there is a column left or not, the result is the same. -/
theorem sound_enter (habove : Rectangle col size above) (htodo : Rectangle (size - col) size todo)
    (hresult : determinantFrom eps (size - col) det (todo.map (List.drop col)) = result) (hcol : s.col < col)
    (hlt : s.col < size) :
    Sound (Standing eps size result) (Nearer size) result s
      (.ok (enter size (above ++ todo) col det)) := by
  unfold enter
  split
  · rename_i h
    refine .next ⟨above, todo, rfl, habove, htodo, h, hresult⟩ ?_
    show size - col < size - s.col
    omega
  · rename_i h
    refine .done ?_
    rw [← hresult, Nat.sub_eq_zero_of_le (by omega)]
    rfl

/-- What dealing with a column starts with: the row with the greatest entry is found `i` rows below the diagonal
and brought up.  The function goes on with this row and the others, too. -/
structure Brought (eps : α) (size : Nat) (result : α) (above : List (List α)) (s : Descent α) (i : Nat)
    (pivotRow : List α) (others : List (List α)) : Prop where
  greatest_eq : greatest size s.col s.rows = .ok (s.col + i)
  cell_eq : cell s.rows (s.col + i) s.col = .ok (entry pivotRow s.col)
  bringUp_eq : bringUp s.col (s.col + i) s.rows = .ok (above ++ pivotRow :: others)
  size_eq : size = s.col + (others.length + 1)
  length_eq : ∀ r ∈ pivotRow :: others, r.length = size
  result_eq : (if Scalar.negligible eps (entry pivotRow s.col) then Scalar.zero
      else determinantFrom eps others.length ((if i = 0 then s.det else -s.det) * entry pivotRow s.col)
        ((others.map (lowered size s.col pivotRow)).map (List.drop (s.col + 1)))) = result

theorem Stands.exists_brought (h : Stands eps size result above todo s) :
    ∃ i pivotRow others, Brought eps size result above s i pivotRow others := by
  have hcol := h.col_lt
  have habove := h.finished.height_eq
  obtain ⟨first, rest, rfl⟩ := List.exists_cons_of_length_pos
    (by rw [h.waiting.height_eq]; omega : 0 < todo.length)
  have hsize : size = s.col + (rest.length + 1) := by
    have hcount := h.waiting.height_eq
    rw [List.length_cons] at hcount
    omega
  have hgreatest := greatest_eq_ok h.rows habove hsize fun r hr => by
    rw [h.waiting.width_eq r hr]
    exact hcol
  generalize hplace : greatestFrom (headMagnitude (first.drop s.col)) 0 1 (rest.map (List.drop s.col)) = i
    at hgreatest
  have hi : i < (first :: rest).length := by
    have hlt := Checked.greatestFrom_lt (headMagnitude (first.drop s.col)) (show 0 < 1 by omega)
      (rest.map (List.drop s.col))
    rw [List.length_map] at hlt
    rw [List.length_cons]
    omega
  obtain ⟨pivotRow, others, hgetD, hset, hchosen, hcount, hmem, hswap⟩ := exists_swap above hi
  rw [habove, ← h.rows] at hswap
  have hlength : ∀ r ∈ pivotRow :: others, r.length = size := fun r hr => h.waiting.width_eq r (hmem r hr)
  have hresult := h.result_eq
  rw [show size - s.col = rest.length + 1 by omega, determinantFrom_drop hplace hgetD hset hlength hcol] at hresult
  refine ⟨i, pivotRow, others, hgreatest, ?_, ?_, hcount ▸ hsize, hlength, hcount ▸ hresult⟩
  · refine cell_eq_ok ?_ (hlength pivotRow List.mem_cons_self ▸ hcol)
    rw [h.rows, List.getElem?_append_right (by omega), habove, Nat.add_sub_cancel_left,
      List.getElem?_eq_getElem hi, hchosen]
  · unfold bringUp
    split
    · -- The row is on the diagonal already.
      obtain rfl : i = 0 := by omega
      obtain rfl : first = pivotRow := hchosen
      obtain rfl : rest = others := hset
      rw [h.rows]
    · exact hswap

/-- **Dealing with a column is sound.** -/
theorem round_sound (hzero : ∀ x, isZero x = true → Scalar.negligible eps x = true)
    (h : Standing eps size result s) :
    Sound (Standing eps size result) (Nearer size) result s (round isZero eps size s) := by
  obtain ⟨above, todo, h⟩ := h
  obtain ⟨i, pivotRow, others, hb⟩ := h.exists_brought
  have hresult := hb.result_eq
  have hsize := hb.size_eq
  obtain ⟨hpivotLength, hothers⟩ := List.forall_mem_cons.1 hb.length_eq
  rw [round, hb.greatest_eq, ok_bind, hb.cell_eq, ok_bind]
  cases hneg : Scalar.negligible eps (entry pivotRow s.col) with
  | true =>
    rw [hneg, if_pos rfl] at hresult
    exact .done hresult
  | false =>
    have hpivot : isZero (entry pivotRow s.col) = false :=
      Bool.eq_false_iff.2 fun hz => by rw [hzero _ hz] at hneg; cases hneg
    have hdiagonal : cell (above ++ pivotRow :: others) s.col s.col = .ok (entry pivotRow s.col) :=
      cell_eq_ok (by simp [← h.finished.height_eq]) (hpivotLength ▸ h.col_lt)
    rw [hneg, if_neg (by decide)] at hresult
    rw [if_neg (by decide), hb.bringUp_eq, ok_bind, hdiagonal, ok_bind,
      clearBelow_eq_ok rfl h.finished.height_eq hsize hb.length_eq hpivot, ok_bind, List.append_cons]
    have hleft : size - (s.col + 1) = others.length := by omega
    have hdone : Rectangle 1 size [pivotRow] := ⟨rfl, List.forall_mem_singleton.2 hpivotLength⟩
    have hlowered : Rectangle others.length size (others.map (lowered size s.col pivotRow)) :=
      ⟨List.length_map _, List.forall_mem_map.2 fun r hr => by rw [length_lowered, hothers r hr]⟩
    refine sound_enter (h.finished.append hdone) (hleft ▸ hlowered) ?_ (Nat.lt_succ_self _) h.col_lt
    rw [hleft, ← hresult]
    simp only [Nat.add_eq_left]

end Descent

end Reckon.Matrix.InPlace
