import Reckon.Matrix.Product
import Reckon.Proofs.Matrix.Checked
import Reckon.Proofs.Value.Undefined

/-!
# The shape of matrices

An operation on matrices puts rows together anew and states dimensions beside them, and nothing but the
check in `make?` holds the two together.  Rows of different lengths that meet are cut to the shorter one,
and no columns are to be seen where there are no rows.  So a product of `2 x 0` and `0 x 3` fails the
check, and so does the transpose of `0 x 3`.

None of this happens to a matrix that has a row and a column (`Shaped`): the rows that an operation makes
of such matrices are a rectangle of the dimensions that it states (`Rectangle`), so the check is passed,
and the outcome has a row and a column again.
-/

namespace Reckon

theorem exists_of_mem_zipWith {α β γ : Type} {f : α → β → γ} {xs : List α} {ys : List β} {z : γ}
    (h : z ∈ List.zipWith f xs ys) : ∃ x ∈ xs, ∃ y ∈ ys, f x y = z := by
  rw [← List.map_uncurry_zip_eq_zipWith] at h
  obtain ⟨⟨x, y⟩, hmem, hz⟩ := List.mem_map.1 h
  obtain ⟨hx, hy⟩ := List.of_mem_zip hmem
  exact ⟨x, hx, y, hy, hz⟩

/-- The results for a list: as many, and each of them the result for a member. -/
theorem mem_of_mapM_eq_ok {α β ε : Type} {f : α → Except ε β} {xs : List α} {ys : List β}
    (h : xs.mapM f = .ok ys) : ys.length = xs.length ∧ ∀ y ∈ ys, ∃ x ∈ xs, f x = .ok y := by
  induction xs generalizing ys with
  | nil =>
    cases h
    exact ⟨rfl, fun y hy => absurd hy List.not_mem_nil⟩
  | cons x xs ih =>
    rw [List.mapM_cons] at h
    cases hx : f x with
    | error e =>
      rw [hx] at h
      cases h
    | ok y =>
      rw [hx, ok_bind] at h
      cases hxs : xs.mapM f with
      | error e =>
        rw [hxs] at h
        cases h
      | ok zs =>
        rw [hxs] at h
        cases h
        obtain ⟨hlength, hmem⟩ := ih hxs
        refine ⟨congrArg (· + 1) hlength, List.forall_mem_cons.2 ⟨⟨x, List.mem_cons_self, hx⟩, ?_⟩⟩
        intro z hz
        obtain ⟨x', hx', hz'⟩ := hmem z hz
        exact ⟨x', List.mem_cons_of_mem x hx', hz'⟩

namespace Matrix

variable {α β γ ε : Type}

/-! ## Rectangles -/

/-- So many rows, each of them so long. -/
structure Rectangle (height width : Nat) (rows : List (List α)) : Prop where
  height_eq : rows.length = height
  width_eq : ∀ r ∈ rows, r.length = width

namespace Rectangle

variable {height width : Nat} {rows : List (List α)}

theorem mapRows (h : Rectangle height width rows) {f : List α → List β}
    (hf : ∀ r, r.length = width → (f r).length = width) : Rectangle height width (rows.map f) := by
  refine ⟨by rw [List.length_map, h.height_eq], fun r hr => ?_⟩
  obtain ⟨s, hs, rfl⟩ := List.mem_map.1 hr
  exact hf s (h.width_eq s hs)

theorem zipWith {rows' : List (List β)} (h : Rectangle height width rows)
    (h' : Rectangle height width rows') (f : α → β → γ) :
    Rectangle height width (List.zipWith (List.zipWith f) rows rows') := by
  refine ⟨by rw [List.length_zipWith, h.height_eq, h'.height_eq, Nat.min_self], fun r hr => ?_⟩
  obtain ⟨s, hs, t, ht, rfl⟩ := exists_of_mem_zipWith hr
  rw [List.length_zipWith, h.width_eq s hs, h'.width_eq t ht, Nat.min_self]

/-- The columns of at least one row. -/
theorem columns (h : Rectangle height width rows) (hpos : 0 < height) :
    Rectangle width height (columns rows) := by
  obtain ⟨rfl, hwidth⟩ := h
  fun_induction Matrix.columns rows with
  | case1 => exact absurd hpos (Nat.lt_irrefl 0)
  | case2 r =>
    refine ⟨by rw [List.length_map, hwidth r List.mem_cons_self], fun c hc => ?_⟩
    obtain ⟨x, -, rfl⟩ := List.mem_map.1 hc
    rfl
  | case3 r s rest ih =>
    obtain ⟨hr, hrest⟩ := List.forall_mem_cons.1 hwidth
    have hcols := ih hrest (Nat.succ_pos _)
    refine ⟨by rw [List.length_zipWith, hr, hcols.height_eq, Nat.min_self], fun c hc => ?_⟩
    obtain ⟨x, -, d, hd, rfl⟩ := exists_of_mem_zipWith hc
    rw [List.length_cons, List.length_cons, hcols.width_eq d hd]

/-- A row of results for every row, with a result for every column. -/
theorem of_mapM {cols : List β} {f : List α → β → Except ε γ} {cells : List (List γ)}
    (h : (rows.mapM fun row => cols.mapM (f row)) = .ok cells) :
    Rectangle rows.length cols.length cells := by
  obtain ⟨hlength, hmem⟩ := mem_of_mapM_eq_ok h
  refine ⟨hlength, fun r hr => ?_⟩
  obtain ⟨row, -, hrow⟩ := hmem r hr
  exact (mem_of_mapM_eq_ok hrow).1

theorem append {height' : Nat} {rows' : List (List α)} (h : Rectangle height width rows)
    (h' : Rectangle height' width rows') : Rectangle (height + height') width (rows ++ rows') :=
  ⟨by rw [List.length_append, h.height_eq, h'.height_eq],
    List.forall_mem_append.2 ⟨h.width_eq, h'.width_eq⟩⟩

end Rectangle

/-! ## Matrices with a row and a column -/

/-- The matrix has a row and a column, and its rows are as its dimensions say. -/
structure Shaped (m : Matrix α) : Prop where
  rows_pos : 1 ≤ m.rowCount
  cols_pos : 1 ≤ m.colCount
  height_eq : m.rows.length = m.rowCount
  width_eq : ∀ r ∈ m.rows, (r.length : Int) = m.colCount

variable {m a b : Matrix α} {height width : Nat} {rows : List (List α)}

/-- Whether a matrix is shaped can be seen from its dimensions. -/
theorem shaped_iff : m.Shaped ↔ 1 ≤ m.dims.1 ∧ 1 ≤ m.dims.2 := by
  constructor
  · intro h
    exact ⟨Int.ofNat_le.2 h.rows_pos, h.cols_pos⟩
  · rintro ⟨hrows, hcols⟩
    exact ⟨Int.ofNat_le.1 hrows, hcols, rfl, m.row_length⟩

theorem Shaped.congr (h : a.Shaped) (hdims : b.dims = a.dims) : b.Shaped := by
  rw [shaped_iff, hdims]
  exact shaped_iff.1 h

theorem Shaped.exists_dims (h : m.Shaped) :
    ∃ height width : Nat, 0 < height ∧ 0 < width ∧ m.dims = ((height : Int), (width : Int)) := by
  have hcols := h.cols_pos
  refine ⟨m.rowCount, m.colCount.toNat, h.rows_pos, by omega, ?_⟩
  rw [dims, Int.toNat_of_nonneg (by omega)]

theorem rectangle_of_dims (h : m.dims = ((height : Int), (width : Int))) :
    Rectangle height width m.rows := by
  obtain ⟨hrows, hcols⟩ := Prod.mk.inj h
  refine ⟨Int.ofNat.inj hrows, fun r hr => ?_⟩
  have hr' := m.row_length r hr
  omega

/-- A rectangle makes a matrix. -/
theorem Rectangle.exists_make? (h : Rectangle height width rows) :
    ∃ m, make? rows height width = some m ∧ m.dims = ((height : Int), (width : Int)) := by
  have hsome : (make? rows height width).isSome = true :=
    make?_isSome_iff.2 ⟨congrArg Int.ofNat h.height_eq, fun r hr => congrArg Int.ofNat (h.width_eq r hr)⟩
  obtain ⟨m, hm⟩ := Option.isSome_iff_exists.1 hsome
  obtain ⟨-, hrows, hcols⟩ := make?_eq_some_iff.1 hm
  exact ⟨m, hm, Prod.ext hrows hcols⟩

/-- So does one whose dimensions are taken from the rows, if there is one. -/
theorem Rectangle.exists_ofRows? (h : Rectangle height width rows) (hpos : 0 < height) :
    ∃ m, ofRows? rows = some m ∧ m.dims = ((height : Int), (width : Int)) := by
  obtain ⟨row, rest, rfl⟩ : ∃ row rest, rows = row :: rest :=
    List.exists_cons_of_length_pos (h.height_eq ▸ hpos)
  have hmake := h.exists_make?
  rw [← h.height_eq, ← h.width_eq row List.mem_cons_self] at hmake ⊢
  exact hmake

/-! ## Entry by entry, and columns for rows -/

theorem zipWith?_dims (f : α → α → β) (ha : a.Shaped) (h : a.dims = b.dims) :
    ∃ m, a.zipWith? f b = some m ∧ m.dims = a.dims := by
  obtain ⟨height, width, -, -, hdims⟩ := ha.exists_dims
  have hrows := (rectangle_of_dims hdims).zipWith (rectangle_of_dims (h.symm.trans hdims)) f
  obtain ⟨hheight, hwidth⟩ := Prod.mk.inj hdims
  unfold zipWith?
  rw [if_pos h, hheight, hwidth, hdims]
  exact hrows.exists_make?

theorem transpose?_dims (h : m.Shaped) : ∃ t, m.transpose? = some t ∧ t.dims = m.dims.swap := by
  obtain ⟨height, width, hpos, -, hdims⟩ := h.exists_dims
  have hcols := (rectangle_of_dims hdims).columns hpos
  obtain ⟨hheight, hwidth⟩ := Prod.mk.inj hdims
  unfold transpose?
  rw [hheight, hwidth, hdims]
  exact hcols.exists_make?

-- Three columns without a row do not show in the rows.
example : (⟨[], 3, by simp⟩ : Matrix Nat).transpose?.isNone = true := by decide

/-! ## Products and powers -/

section Product

variable [Scalar α]

/-- The only fault of a list of sums is that of a sum. -/
theorem exists_sum_of_dots {sum : List α → Except ε α} {row : List α} {cols : List (List α)}
    {fault : Fault ε} (h : cols.mapM (dot sum row) = .error fault) : ∃ e, fault = .sum e := by
  obtain ⟨-, col, -, -, -, hcol⟩ := mapM_eq_error_iff.1 h
  obtain ⟨e, -, he⟩ := mapError_eq_error_iff.1 hcol
  exact ⟨e, he.symm⟩

/-- A product has the rows of the one and the columns of the other, unless a sum has no value. -/
theorem mul_dims (sum : List α → Except ε α) (hb : b.Shaped) (hinner : a.colCount = b.rowCount) :
    (∃ m, a.mul sum b = .ok m ∧ m.dims = ((a.rowCount : Int), b.colCount)) ∨
      ∃ e, a.mul sum b = .error (.sum e) := by
  obtain ⟨height, width, hpos, -, hdims⟩ := hb.exists_dims
  have hcols := (rectangle_of_dims hdims).columns hpos
  obtain ⟨-, hwidth⟩ := Prod.mk.inj hdims
  unfold mul
  rw [if_pos hinner]
  cases hrows : a.rows.mapM fun row => (columns b.rows).mapM (dot sum row) with
  | error fault =>
    obtain ⟨-, row, -, -, -, hrow⟩ := mapM_eq_error_iff.1 hrows
    obtain ⟨e, rfl⟩ := exists_sum_of_dots hrow
    exact .inr ⟨e, by simp only [hrows]; rfl⟩
  | ok rows =>
    have hrectangle := Rectangle.of_mapM hrows
    rw [hcols.height_eq] at hrectangle
    obtain ⟨m, hmake, hm⟩ := hrectangle.exists_make?
    refine .inl ⟨m, ?_, hwidth ▸ hm⟩
    have hmake' : make? rows a.rowCount b.colCount = some m := hwidth ▸ hmake
    simp only [hrows, ok_bind, hmake']

@[simp]
theorem dims_identity (n : Nat) : (identity n : Matrix α).dims = ((n : Int), (n : Int)) := by
  simp [dims, rowCount, identity, identityRows]

/-- Multiplying by a square matrix again and again keeps the dimensions. -/
theorem mulTimes_dims (sum : List α → Except ε α) {base acc : Matrix α} (n : Nat) (hbase : base.Shaped)
    (hsquare : (base.rowCount : Int) = base.colCount) (hacc : acc.dims = base.dims) :
    (∃ m, mulTimes sum base n acc = .ok m ∧ m.dims = base.dims) ∨
      ∃ e, mulTimes sum base n acc = .error (.sum e) := by
  induction n generalizing acc with
  | zero => exact .inl ⟨acc, rfl, hacc⟩
  | succ n ih =>
    obtain ⟨hrows, hcols⟩ := Prod.mk.inj hacc
    rw [mulTimes]
    rcases mul_dims sum hbase (hcols.trans hsquare.symm) with ⟨next, hnext, hdims⟩ | ⟨e, he⟩
    · rw [hnext]
      exact ih (hdims.trans (by rw [hrows, dims]))
    · exact .inr ⟨e, by rw [he]⟩

/-- A natural power of a square matrix has its dimensions, unless a sum has no value. -/
theorem power_dims (sum : List α → Except ε α) {base : Matrix α} {exponent : α} {n : Nat}
    (hbase : base.Shaped) (hsquare : base.isSquare = true) (hn : Scalar.toNat? exponent = some n) :
    (∃ m, base.power sum exponent = .ok m ∧ m.dims = base.dims) ∨
      ∃ e, base.power sum exponent = .error (.sum e) := by
  have hequal : (base.rowCount : Int) = base.colCount := by simpa [isSquare] using hsquare
  unfold power
  rw [if_pos hsquare, hn]
  refine mulTimes_dims sum n hbase hequal ?_
  rw [dims_identity, dims, hequal]

end Product

/-! ## Reduced row-echelon form -/

section Reduced

variable [Scalar α]

theorem Rectangle.clearAt (h : Rectangle height width rows) (col : Nat) {pivotRow : List α}
    (hpivot : pivotRow.length = width) : Rectangle height width (rows.map (clearAt col pivotRow)) :=
  h.mapRows fun _ hr => (Checked.length_subtractScaled (hr.trans hpivot.symm) _).trans hr

/-- Finished rows and rows still to do stay as many, and as long. -/
theorem Rectangle.reduceFrom (eps : α) {finished : Nat} (n : Nat) {above todo : List (List α)}
    (lead : Nat) (habove : Rectangle finished width above) (htodo : Rectangle height width todo) :
    Rectangle (finished + height) width (reduceFrom eps width n above todo lead) := by
  induction n generalizing finished height above todo lead with
  | zero => exact habove.append htodo
  | succ n ih =>
    cases todo with
    | nil => exact habove.append htodo
    | cons first rest =>
      rw [Matrix.reduceFrom]
      cases hpivot : findPivot? eps (first :: rest) lead (width - lead) with
      | none => exact habove.append htodo
      | some found =>
        obtain ⟨col, i⟩ := found
        obtain ⟨-, -, hi, -⟩ := Checked.findPivot?_eq_some hpivot
        have hchosen : ((first :: rest).getD i first).length = width := by
          rw [List.getD_eq_getElem?_getD, List.getElem?_eq_getElem hi]
          exact htodo.width_eq _ (List.getElem_mem hi)
        have hothers : Rectangle (height - 1) width (((first :: rest).set i first).drop 1) := by
          refine ⟨by rw [List.length_drop, List.length_set, htodo.height_eq], fun r hr => ?_⟩
          rcases List.mem_or_eq_of_mem_set (List.mem_of_mem_drop hr) with h | rfl
          · exact htodo.width_eq r h
          · exact htodo.width_eq r List.mem_cons_self
        -- The pivot row joins the finished ones.
        have hpivotRow : ((((first :: rest).getD i first).map
            (· / entry ((first :: rest).getD i first) col))).length = width := by
          rw [List.length_map, hchosen]
        have hdone := (habove.clearAt col hpivotRow).append
          (⟨rfl, List.forall_mem_singleton.2 hpivotRow⟩ : Rectangle 1 width [_])
        have hcount : finished + 1 + (height - 1) = finished + height := by
          have hlength := htodo.height_eq
          rw [List.length_cons] at hlength
          omega
        exact hcount ▸ ih (col + 1) hdone (hothers.clearAt col hpivotRow)

theorem reduced?_dims (eps : α) (h : m.Shaped) : ∃ r, m.reduced? eps = some r ∧ r.dims = m.dims := by
  obtain ⟨height, width, hpos, -, hdims⟩ := h.exists_dims
  have hrows := rectangle_of_dims hdims
  obtain ⟨-, hwidth⟩ := Prod.mk.inj hdims
  have hreduced : Rectangle height width (m.reducedRows eps) := by
    unfold reducedRows
    rw [hwidth, Int.toNat_natCast]
    have hnone : Rectangle 0 width ([] : List (List α)) := ⟨rfl, by simp⟩
    have hrun := hnone.reduceFrom eps m.rowCount 0 hrows
    rw [Nat.zero_add] at hrun
    exact hrun.mapRows fun r hr => by rw [List.length_map, hr]
  rw [hdims]
  exact hreduced.exists_ofRows? hpos

end Reduced

end Matrix

end Reckon
