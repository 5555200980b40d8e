import Reckon.Matrix.Elimination

/-!
# Elimination stays within bounds

Elimination reads entries of rows and divides by pivots.  Its functions give something also where there
is no such entry or the divisor is zero.  Here it is done once more with each of these checked: the
checked functions stop at an entry that is missing (`Breach.index`) and at a divisor that is zero
(`Breach.zeroDivision`).

On the rows of a matrix nothing stops them, and they give what the unchecked ones give
(`determinant_eq`, `reducedRows_eq`).  Rows keep their length through every step, so that the entries are
there, and a pivot is never negligible.  What is asked of the scalars is that zero is negligible.
-/

namespace Reckon

/-- What the parts of a program's own machinery must not do to one another. -/
inductive Breach where
  /-- To look up an operator that the table does not have. -/
  | key (symbol : String)
  /-- To read an entry that is not there. -/
  | index
  /-- To divide by zero. -/
  | zeroDivision
deriving Repr, DecidableEq

theorem ok_bind {α β ε : Type} (x : α) (f : α → Except ε β) : ((.ok x : Except ε α) >>= f) = f x := rfl

/-- A list whose members all give a result gives their results. -/
theorem mapM_eq_ok {α β ε : Type} {f : α → Except ε β} {g : α → β} {xs : List α}
    (h : ∀ x ∈ xs, f x = .ok (g x)) : xs.mapM f = .ok (xs.map g) := by
  induction xs with
  | nil => rfl
  | cons x xs ih =>
    rw [List.mapM_cons, h x List.mem_cons_self, ih fun y hy => h y (List.mem_cons_of_mem x hy)]
    rfl

namespace Matrix

namespace Checked

variable {α : Type} [Scalar α] (isZero : α → Bool)

/-- A member of a list. -/
def get {β : Type} (xs : List β) (i : Nat) : Except Breach β :=
  match xs[i]? with
  | some x => .ok x
  | none => .error .index

/-- A quotient. -/
def divide (x y : α) : Except Breach α :=
  if isZero y then .error .zeroDivision else .ok (x / y)

/-- `row - factor · pivotRow`, where each entry of the one has its partner in the other. -/
def subtractScaled (row : List α) (factor : α) (pivotRow : List α) : Except Breach (List α) :=
  if row.length = pivotRow.length then .ok (Matrix.subtractScaled row factor pivotRow)
  else .error .index

/-- Clears the first column of a row by means of the pivot row, and drops the column. -/
def clearHead (pivot : α) (pivotTail row : List α) : Except Breach (List α) := do
  let x ← get row 0
  let factor ← divide isZero x pivot
  subtractScaled row.tail factor pivotTail

/-- `acc` times the determinant of the rows; `n` is their number. -/
def determinantFrom (eps : α) : Nat → α → List (List α) → Except Breach α
  | n + 1, acc, first :: rest => do
    -- To find the greatest one, the first entry of every row is read.
    let _ ← (first :: rest).mapM (get · 0)
    let i := greatestFrom (headMagnitude first) 0 1 rest
    let pivotRow ← get (first :: rest) i
    let pivot ← get pivotRow 0
    if Scalar.negligible eps pivot then return Scalar.zero
    else
      let (_, others, exchanged) := choosePivot first rest
      let rows ← others.mapM (clearHead isZero pivot pivotRow.tail)
      determinantFrom eps n ((if exchanged then -acc else acc) * pivot) rows
  | _, acc, _ => return acc

/-- The first column, from `lead` on, in which some row has an entry that is not negligible, and the
first such row; `width` columns are read. -/
def findPivot? (eps : α) (rows : List (List α)) (lead : Nat) :
    Nat → Except Breach (Option (Nat × Nat))
  | 0 => return none
  | width + 1 => do
    let column ← rows.mapM (get · lead)
    match column.findIdx? fun x => !Scalar.negligible eps x with
    | some i => return some (lead, i)
    | none => findPivot? eps rows (lead + 1) width

/-- Clears column `lead` of a row by means of a row with a one there. -/
def clearAt (lead : Nat) (pivotRow row : List α) : Except Breach (List α) := do
  let factor ← get row lead
  subtractScaled row factor pivotRow

/-- Reduces the rows `todo` below the finished rows `above`, whose pivots stand before column
`lead`; `n` bounds the number of rows still to do. -/
def reduceFrom (eps : α) (colCount : Nat) :
    Nat → List (List α) → List (List α) → Nat → Except Breach (List (List α))
  | n + 1, above, first :: rest, lead => do
    match ← findPivot? eps (first :: rest) lead (colCount - lead) with
    | none => return above ++ first :: rest
    | some (col, i) =>
      let chosen ← get (first :: rest) i
      let others := ((first :: rest).set i first).drop 1
      let pivot ← get chosen col
      let pivotRow ← chosen.mapM (divide isZero · pivot)
      let finished ← above.mapM (clearAt col pivotRow)
      let cleared ← others.mapM (clearAt col pivotRow)
      reduceFrom eps colCount n (finished ++ [pivotRow]) cleared (col + 1)
  | _, above, todo, _ => return above ++ todo

/-- The determinant of a square matrix. -/
def determinant (eps : α) (m : Matrix α) : Except Breach α :=
  determinantFrom isZero eps m.rowCount Scalar.one m.rows

/-- The rows of the reduced row-echelon form, negligible entries cleaned. -/
def reducedRows (eps : α) (m : Matrix α) : Except Breach (List (List α)) := do
  let rows ← reduceFrom isZero eps m.colCount.toNat m.rowCount [] m.rows 0
  return rows.map (List.map (cleaned eps))

/-! ## Reading -/

theorem get_eq_ok {β : Type} {xs : List β} {i : Nat} (h : i < xs.length) (d : β) :
    get xs i = .ok (xs.getD i d) := by
  unfold get
  rw [List.getD_eq_getElem?_getD, List.getElem?_eq_getElem h]
  rfl

theorem length_subtractScaled {row pivotRow : List α} (h : row.length = pivotRow.length) (factor : α) :
    (Matrix.subtractScaled row factor pivotRow).length = row.length := by
  unfold Matrix.subtractScaled
  rw [List.length_zipWith, h, Nat.min_self]

theorem subtractScaled_eq_ok {row pivotRow : List α} (h : row.length = pivotRow.length) (factor : α) :
    subtractScaled row factor pivotRow = .ok (Matrix.subtractScaled row factor pivotRow) :=
  if_pos h

variable {isZero}

theorem divide_eq_ok {y : α} (h : isZero y = false) (x : α) : divide isZero x y = .ok (x / y) := by
  unfold divide
  rw [h]
  rfl

/-! ## Determinant -/

theorem greatestFrom_lt (best : α) {place i : Nat} (h : place < i) (rows : List (List α)) :
    greatestFrom best place i rows < i + rows.length := by
  induction rows generalizing best place i with
  | nil => exact h
  | cons row rest ih =>
    rw [greatestFrom, List.length_cons]
    split
    · have hlt := ih (headMagnitude row) (show i < i + 1 by omega)
      omega
    · have hlt := ih best (show place < i + 1 by omega)
      omega

/-- The pivot row is the row of the greatest index, and the others are as many rows as before. -/
theorem choosePivot_spec (first : List α) (rest : List (List α)) :
    (choosePivot first rest).1 =
      (first :: rest).getD (greatestFrom (headMagnitude first) 0 1 rest) first ∧
    (choosePivot first rest).1 ∈ first :: rest ∧
    (choosePivot first rest).2.1.length = rest.length ∧
    ∀ row ∈ (choosePivot first rest).2.1, row ∈ first :: rest := by
  have hlt := greatestFrom_lt (headMagnitude first) (show 0 < 1 by omega) rest
  unfold choosePivot
  split
  · rename_i hi
    rw [hi]
    exact ⟨rfl, List.mem_cons_self, rfl, fun row hrow => List.mem_cons_of_mem first hrow⟩
  · rename_i i hi
    rw [hi] at hlt ⊢
    have hi' : i < rest.length := by omega
    refine ⟨rfl, ?_, List.length_set, fun row hrow => ?_⟩
    · show rest.getD i first ∈ _
      rw [List.getD_eq_getElem?_getD, List.getElem?_eq_getElem hi']
      exact List.mem_cons_of_mem first (List.getElem_mem hi')
    · rcases List.mem_or_eq_of_mem_set hrow with h | rfl
      · exact List.mem_cons_of_mem first h
      · exact List.mem_cons_self

theorem length_clearHead {pivotTail row : List α} (hrow : row.length = pivotTail.length + 1) (pivot : α) :
    (Matrix.clearHead pivot pivotTail row).length = pivotTail.length := by
  cases row with
  | nil => cases hrow
  | cons x xs =>
    have hxs : xs.length = pivotTail.length := Nat.succ.inj hrow
    exact (length_subtractScaled hxs _).trans hxs

theorem clearHead_eq_ok {pivot : α} (hpivot : isZero pivot = false) {pivotTail row : List α}
    (hrow : row.length = pivotTail.length + 1) :
    clearHead isZero pivot pivotTail row = .ok (Matrix.clearHead pivot pivotTail row) := by
  cases row with
  | nil => cases hrow
  | cons x xs =>
    have hxs : xs.length = pivotTail.length := Nat.succ.inj hrow
    show (divide isZero x pivot).bind (fun factor => subtractScaled xs factor pivotTail) = _
    rw [divide_eq_ok hpivot]
    exact subtractScaled_eq_ok hxs _

variable {eps : α}

theorem determinantFrom_eq (hzero : ∀ x, isZero x = true → Scalar.negligible eps x = true) (n : Nat)
    (acc : α) {rows : List (List α)} (hcount : rows.length = n) (hrows : ∀ r ∈ rows, r.length = n) :
    determinantFrom isZero eps n acc rows = .ok (Matrix.determinantFrom eps n acc rows) := by
  induction n generalizing acc rows with
  | zero => rfl
  | succ n ih =>
    cases rows with
    | nil => cases hcount
    | cons first rest =>
      obtain ⟨hrow, hmem, hothers, hsub⟩ := choosePivot_spec first rest
      have hheads : (first :: rest).mapM (get · 0) = .ok ((first :: rest).map (·.getD 0 Scalar.zero)) :=
        mapM_eq_ok fun r hr => get_eq_ok (by rw [hrows r hr]; omega) _
      have hindex := greatestFrom_lt (headMagnitude first) (show 0 < 1 by omega) rest
      have hpivotRow : get (first :: rest) (greatestFrom (headMagnitude first) 0 1 rest) =
          .ok (choosePivot first rest).1 := by
        rw [hrow]
        exact get_eq_ok (by rw [List.length_cons]; omega) first
      rw [determinantFrom, hheads, ok_bind]
      dsimp only
      rw [hpivotRow, ok_bind]
      rcases hchosen : choosePivot first rest with ⟨_ | ⟨pivot, pivotTail⟩, others, exchanged⟩ <;>
        rw [hchosen] at hmem hothers hsub
      · cases hrows [] hmem
      · have htail : pivotTail.length = n := Nat.succ.inj (hrows _ hmem)
        rw [determinantFrom_cons hchosen]
        show (if Scalar.negligible eps pivot then _ else _) = Except.ok (if _ then _ else _)
        split
        · rfl
        · rename_i hneg
          have hpivot : isZero pivot = false := Bool.eq_false_iff.2 fun h => hneg (hzero pivot h)
          have hlengths : ∀ row ∈ others, row.length = pivotTail.length + 1 := fun row hr =>
            (hrows row (hsub row hr)).trans (congrArg (· + 1) htail.symm)
          show ((others.mapM (clearHead isZero pivot pivotTail)) >>= _) = _
          rw [mapM_eq_ok fun row hr => clearHead_eq_ok hpivot (hlengths row hr), ok_bind]
          refine ih _ ?_ ?_
          · rw [List.length_map, hothers]
            exact Nat.succ.inj hcount
          · intro r hr
            obtain ⟨row, hrow', rfl⟩ := List.mem_map.1 hr
            exact (length_clearHead (hlengths row hrow') pivot).trans htail

/-! ## Reduced row-echelon form -/

theorem findPivot?_eq (eps : α) {rows : List (List α)} (lead width : Nat)
    (hrows : ∀ r ∈ rows, lead + width ≤ r.length) :
    findPivot? eps rows lead width = .ok (Matrix.findPivot? eps rows lead width) := by
  induction width generalizing lead with
  | zero => rfl
  | succ width ih =>
    have hcolumn : rows.mapM (get · lead) = .ok (rows.map (entry · lead)) :=
      mapM_eq_ok fun r hr => get_eq_ok (by have := hrows r hr; omega) _
    rw [findPivot?, Matrix.findPivot?, hcolumn, ok_bind, List.findIdx?_map]
    show (match rows.findIdx? (fun row => !Scalar.negligible eps (entry row lead)) with
      | some i => _
      | none => _) = _
    cases rows.findIdx? fun row => !Scalar.negligible eps (entry row lead) with
    | some i => rfl
    | none => exact ih (lead + 1) fun r hr => by have := hrows r hr; omega

/-- A pivot stands in the columns that were looked at, and is not negligible. -/
theorem findPivot?_eq_some {rows : List (List α)} {lead width col i : Nat}
    (h : Matrix.findPivot? eps rows lead width = some (col, i)) :
    lead ≤ col ∧ col < lead + width ∧
      ∃ hi : i < rows.length, Scalar.negligible eps (entry rows[i] col) = false := by
  induction width generalizing lead with
  | zero => cases h
  | succ width ih =>
    rw [Matrix.findPivot?] at h
    split at h
    · rename_i j hj
      cases h
      obtain ⟨hi, hneg, -⟩ := List.findIdx?_eq_some_iff_getElem.1 hj
      exact ⟨Nat.le_refl _, by omega, hi, by simpa using hneg⟩
    · obtain ⟨hlead, hcol, hi⟩ := ih h
      exact ⟨by omega, by omega, hi⟩

theorem clearAt_eq_ok {col : Nat} {pivotRow row : List α} (hrow : row.length = pivotRow.length)
    (hcol : col < row.length) :
    clearAt col pivotRow row = .ok (Matrix.clearAt col pivotRow row) ∧
      (Matrix.clearAt col pivotRow row).length = pivotRow.length := by
  refine ⟨?_, (length_subtractScaled hrow _).trans hrow⟩
  rw [clearAt, get_eq_ok hcol Scalar.zero, ok_bind]
  exact subtractScaled_eq_ok hrow _

theorem reduceFrom_eq (hzero : ∀ x, isZero x = true → Scalar.negligible eps x = true) (width n : Nat)
    {above todo : List (List α)} (lead : Nat) (habove : ∀ r ∈ above, r.length = width)
    (htodo : ∀ r ∈ todo, r.length = width) :
    reduceFrom isZero eps width n above todo lead =
      .ok (Matrix.reduceFrom eps width n above todo lead) := by
  induction n generalizing above todo lead with
  | zero => rfl
  | succ n ih =>
    cases todo with
    | nil => rfl
    | cons first rest =>
      have hfound : findPivot? eps (first :: rest) lead (width - lead) =
          .ok (Matrix.findPivot? eps (first :: rest) lead (width - lead)) := by
        by_cases hlead : lead ≤ width
        · exact findPivot?_eq eps lead _ fun r hr => by rw [htodo r hr]; omega
        · rw [Nat.sub_eq_zero_of_le (by omega)]
          rfl
      rw [reduceFrom, Matrix.reduceFrom, hfound, ok_bind]
      cases hpivot : Matrix.findPivot? eps (first :: rest) lead (width - lead) with
      | none => rfl
      | some found =>
        obtain ⟨col, i⟩ := found
        obtain ⟨hlead, hcol, hi, hneg⟩ := findPivot?_eq_some hpivot
        have hchosen : (first :: rest).getD i first = (first :: rest)[i] := by
          rw [List.getD_eq_getElem?_getD, List.getElem?_eq_getElem hi]
          rfl
        have hlength : (first :: rest)[i].length = width := htodo _ (List.getElem_mem hi)
        have hwidth : col < width := by omega
        have hother : ∀ r ∈ ((first :: rest).set i first).drop 1, r.length = width := by
          intro r hr
          rcases List.mem_or_eq_of_mem_set (List.mem_of_mem_drop hr) with h | rfl
          · exact htodo r h
          · exact htodo r List.mem_cons_self
        dsimp only
        rw [get_eq_ok hi first, ok_bind, hchosen]
        generalize (first :: rest)[i] = chosen at hlength hneg ⊢
        have hzero' : isZero (entry chosen col) = false :=
          Bool.eq_false_iff.2 fun h => by rw [hzero _ h] at hneg; cases hneg
        have hpivotRow : (chosen.map (· / entry chosen col)).length = width := by
          rw [List.length_map, hlength]
        have hclear : ∀ r : List α, r.length = width →
            clearAt col (chosen.map (· / entry chosen col)) r =
              .ok (Matrix.clearAt col (chosen.map (· / entry chosen col)) r) ∧
            (Matrix.clearAt col (chosen.map (· / entry chosen col)) r).length = width := by
          intro r hr
          obtain ⟨hok, hlen⟩ := clearAt_eq_ok (hr.trans hpivotRow.symm) (by omega : col < r.length)
          exact ⟨hok, hlen.trans hpivotRow⟩
        have hpivot' : get chosen col = .ok (entry chosen col) := get_eq_ok (by omega) _
        rw [hpivot', ok_bind, mapM_eq_ok fun x _ => divide_eq_ok hzero' x, ok_bind]
        rw [mapM_eq_ok fun r hr => (hclear r (habove r hr)).1, ok_bind]
        rw [mapM_eq_ok fun r hr => (hclear r (hother r hr)).1, ok_bind]
        refine ih (col + 1) ?_ ?_
        · intro r hr
          rcases List.mem_append.1 hr with hr | hr
          · obtain ⟨row, hrow, rfl⟩ := List.mem_map.1 hr
            exact (hclear row (habove row hrow)).2
          · rw [List.mem_singleton.1 hr]
            exact hpivotRow
        · intro r hr
          obtain ⟨row, hrow, rfl⟩ := List.mem_map.1 hr
          exact (hclear row (hother row hrow)).2

/-! ## Matrices -/

theorem determinant_eq (hzero : ∀ x, isZero x = true → Scalar.negligible eps x = true)
    {m : Matrix α} (hsquare : m.isSquare = true) :
    determinant isZero eps m = .ok (m.determinant eps) := by
  have hcol : (m.rowCount : Int) = m.colCount := by simpa [isSquare] using hsquare
  refine determinantFrom_eq hzero m.rowCount Scalar.one rfl fun r hr => ?_
  have hrow := m.row_length r hr
  omega

theorem reducedRows_eq (hzero : ∀ x, isZero x = true → Scalar.negligible eps x = true) (m : Matrix α) :
    reducedRows isZero eps m = .ok (m.reducedRows eps) := by
  have hrows : ∀ r ∈ m.rows, r.length = m.colCount.toNat := by
    intro r hr
    have hrow := m.row_length r hr
    omega
  rw [reducedRows, reduceFrom_eq hzero _ _ 0 (by simp) hrows]
  rfl

end Checked

end Matrix

end Reckon
