import Reckon.Proofs.Matrix.Grid

/-!
# Transposes of products

Exchanging rows and columns twice changes nothing, and the transpose of a product is the product of the
transposes in the other order (`transpose_mul`).  If multiplication is commutative, an entry of the one
product is the sum of the very same list as the entry of the other, at the place with row and column
exchanged.  So nothing has to be known about how lists are summed: sums may be rounded, they may depend on
the order of the list, and they may fail.  Doubles multiply commutatively (`float_mul_comm`), so the
product of the language has this law although its sums have few others.

Rows and columns are worked through in another order, so if several sums fail, the two products may
complain of different ones.
-/

namespace Reckon.Matrix

variable {α β γ ε : Type} {height width : Nat} {rows : List (List α)}

/-! ## Columns of columns -/

/-- The columns of a table of values. -/
theorem columns_map_map (f : α → β → γ) {xs : List α} (hne : xs ≠ []) (ys : List β) :
    columns (xs.map fun x => ys.map (f x)) = ys.map fun y => xs.map fun x => f x y := by
  induction xs with
  | nil => exact absurd rfl hne
  | cons x xs ih =>
    cases xs with
    | nil => simp [columns]
    | cons x' xs =>
      have hrest := ih (List.cons_ne_nil x' xs)
      rw [List.map_cons] at hrest
      rw [List.map_cons, List.map_cons, columns, hrest, List.zipWith_map, List.zipWith_self]
      rfl

/-- The one matrix is the other with rows and columns exchanged. -/
structure Transposed (m t : Matrix α) : Prop where
  rows : t.rows = columns m.rows
  back : m.rows = columns t.rows
  dims : t.dims = m.dims.swap

variable [Scalar α] {a b a' b' m t : Matrix α} {sum : List α → Except ε α}

theorem columns_columns (h : Rectangle height width rows) (hheight : 0 < height) (hwidth : 0 < width) :
    columns (columns rows) = rows := by
  have hcols := h.columns hheight
  refine (hcols.columns hwidth).ext h fun i hi j hj => ?_
  rw [entry_columns hcols hj hi, entry_columns h hi hj]

namespace Transposed

omit [Scalar α] in
theorem symm (h : m.Transposed t) : t.Transposed m :=
  ⟨h.back, h.rows, by rw [h.dims, Prod.swap_swap]⟩

omit [Scalar α] in
theorem transpose?_eq (h : m.Transposed t) : m.transpose? = some t := by
  obtain ⟨hrows, hcols⟩ := Prod.mk.inj h.dims
  exact make?_eq_some_iff.2 ⟨h.rows, hrows, hcols⟩

omit [Scalar α] in
theorem shaped (h : m.Transposed t) (hm : m.Shaped) : t.Shaped := by
  rw [shaped_iff, h.dims]
  exact ⟨hm.cols_pos, Int.ofNat_le.2 hm.rows_pos⟩

/-- A matrix that has a row and a column has a transpose. -/
theorem exists_of_shaped (h : m.Shaped) : ∃ t, m.Transposed t := by
  obtain ⟨height, width, hheight, hwidth, hdims⟩ := h.exists_dims
  obtain ⟨t, ht, hswap⟩ := transpose?_dims h
  obtain ⟨hrows, -, -⟩ := make?_eq_some_iff.1 ht
  refine ⟨t, hrows, ?_, hswap⟩
  rw [hrows, columns_columns (rectangle_of_dims hdims) hheight hwidth]

omit [Scalar α] in
/-- Matrices fit if and only if their transposes do, the other way round. -/
theorem inner_iff (ha : a.Transposed a') (hb : b.Transposed b') :
    a.colCount = b.rowCount ↔ b'.colCount = a'.rowCount := by
  have hrows : (a'.rowCount : Int) = a.colCount := (Prod.mk.inj ha.dims).1
  have hcols : b'.colCount = b.rowCount := (Prod.mk.inj hb.dims).2
  rw [hrows, hcols, eq_comm]

end Transposed

/-! ## Entries of a product -/

/-- A row and a column can be exchanged. -/
theorem dot_comm (comm : ∀ x y : α, x * y = y * x) (row col : List α) :
    dot sum row col = dot sum col row := by
  have hproducts : List.zipWith (· * ·) row col = List.zipWith (· * ·) col row :=
    List.zipWith_comm_of_comm comm
  rw [dot, dot, hproducts]

/-- Matrices that do not fit are refused, and no others are. -/
theorem mul_eq_inner_iff (hb : b.Shaped) :
    a.mul sum b = .error .inner ↔ a.colCount ≠ b.rowCount := by
  refine ⟨fun h hinner => ?_, fun h => if_neg h⟩
  rcases mul_dims sum hb hinner with ⟨m, hm, -⟩ | ⟨e, he⟩
  · rw [hm] at h
    cases h
  · rw [he] at h
    cases h

/-- Matrices that have a product fit, and their dimensions are those of the product. -/
theorem dims_of_mul (hb : b.Shaped) (hm : a.mul sum b = .ok m) :
    a.colCount = b.rowCount ∧ m.dims = ((a.rowCount : Int), b.colCount) := by
  have hinner : a.colCount = b.rowCount := by
    by_contra hne
    rw [(mul_eq_inner_iff hb).2 hne] at hm
    cases hm
  refine ⟨hinner, ?_⟩
  rcases mul_dims sum hb hinner with ⟨n, hn, hdims⟩ | ⟨e, he⟩
  · rw [hm] at hn
    cases hn
    exact hdims
  · rw [hm] at he
    cases he

/-- Matrices that fit have a product if and only if each of its sums has a value. -/
theorem exists_mul_iff (hb : b.Shaped) (hinner : a.colCount = b.rowCount) :
    (∃ m, a.mul sum b = .ok m) ↔
      ∀ row ∈ a.rows, ∀ col ∈ columns b.rows, ∃ x, dot sum row col = .ok x := by
  have hcells : (∃ cells, (a.rows.mapM fun row => (columns b.rows).mapM (dot sum row)) = .ok cells) ↔
      ∀ row ∈ a.rows, ∀ col ∈ columns b.rows, ∃ x, dot sum row col = .ok x :=
    mapM_eq_ok_iff.trans (forall₂_congr fun _ _ => mapM_eq_ok_iff)
  rw [← hcells]
  constructor
  · rintro ⟨m, hm⟩
    unfold mul at hm
    rw [if_pos hinner] at hm
    cases hrun : a.rows.mapM fun row => (columns b.rows).mapM (dot sum row) with
    | error fault =>
      simp only [hrun] at hm
      cases hm
    | ok cells => exact ⟨cells, rfl⟩
  · rintro ⟨cells, hrun⟩
    rcases mul_dims sum hb hinner with ⟨m, hm, -⟩ | ⟨e, he⟩
    · exact ⟨m, hm⟩
    · unfold mul at he
      rw [if_pos hinner] at he
      simp only [hrun, ok_bind] at he
      split at he <;> cases he

/-- The rows of a product whose sums are known. -/
theorem rows_mul (value : List α → List α → α) (hm : a.mul sum b = .ok m)
    (hinner : a.colCount = b.rowCount)
    (hvalue : ∀ row ∈ a.rows, ∀ col ∈ columns b.rows, dot sum row col = .ok (value row col)) :
    m.rows = a.rows.map fun row => (columns b.rows).map (value row) := by
  have hrun : (a.rows.mapM fun row => (columns b.rows).mapM (dot sum row)) =
      .ok (a.rows.map fun row => (columns b.rows).map (value row)) :=
    mapM_eq_ok fun row hrow => mapM_eq_ok fun col hcol => hvalue row hrow col hcol
  unfold mul at hm
  rw [if_pos hinner] at hm
  simp only [hrun, ok_bind] at hm
  split at hm
  · rename_i hmake
    cases hm
    exact (make?_eq_some_iff.1 hmake).1
  · cases hm

/-! ## Products of transposes -/

section Transposes

variable (comm : ∀ x y : α, x * y = y * x) (ha : a.Shaped) (hb : b.Shaped) (hat : a.Transposed a')
  (hbt : b.Transposed b')
include comm ha hb hat hbt

/-- The sums of the one product are those of the other. -/
theorem exists_mul_transposed_iff (sum : List α → Except ε α) :
    (∃ m, a.mul sum b = .ok m) ↔ ∃ m, b'.mul sum a' = .ok m := by
  by_cases hinner : a.colCount = b.rowCount
  · rw [exists_mul_iff hb hinner, exists_mul_iff (hat.shaped ha) ((hat.inner_iff hbt).1 hinner),
      hbt.rows, ← hat.back]
    constructor
    · intro h col hcol row hrow
      obtain ⟨x, hx⟩ := h row hrow col hcol
      exact ⟨x, dot_comm comm row col ▸ hx⟩
    · intro h row hrow col hcol
      obtain ⟨x, hx⟩ := h col hcol row hrow
      exact ⟨x, dot_comm comm col row ▸ hx⟩
  · have hother : b'.colCount ≠ a'.rowCount := mt (hat.inner_iff hbt).2 hinner
    rw [(mul_eq_inner_iff hb).2 hinner, (mul_eq_inner_iff (hat.shaped ha)).2 hother]

theorem transposed_of_mul (hm : a.mul sum b = .ok m) : ∃ t, m.Transposed t ∧ b'.mul sum a' = .ok t := by
  have hexists : Nonempty α := ⟨Scalar.zero⟩
  have ha' := hat.shaped ha
  obtain ⟨hinner, hdims⟩ := dims_of_mul hb hm
  obtain ⟨t, ht⟩ := (exists_mul_transposed_iff comm ha hb hat hbt sum).1 ⟨m, hm⟩
  obtain ⟨hinner', hdims'⟩ := dims_of_mul ha' ht
  have hsums := (exists_mul_iff hb hinner).1 ⟨m, hm⟩
  choose! value hvalue using hsums
  have hrows := rows_mul value hm hinner hvalue
  have hrows' : t.rows = (columns b.rows).map fun col => a.rows.map fun row => value row col := by
    rw [← hbt.rows, hat.back]
    refine rows_mul (fun col row => value row col) ht hinner' fun col hcol row hrow => ?_
    rw [hbt.rows] at hcol
    rw [← hat.back] at hrow
    rw [dot_comm comm, hvalue row hrow col hcol]
  have hne : a.rows ≠ [] := List.length_pos_iff.1 ha.rows_pos
  have hne' : columns b.rows ≠ [] := by
    rw [← hbt.rows]
    exact List.length_pos_iff.1 (hbt.shaped hb).rows_pos
  refine ⟨t, ⟨?_, ?_, ?_⟩, ht⟩
  · rw [hrows', hrows, columns_map_map value hne]
  · rw [hrows', hrows, columns_map_map (fun col row => value row col) hne']
  · have hheight : (b'.rowCount : Int) = b.colCount := (Prod.mk.inj hbt.dims).1
    have hwidth : a'.colCount = a.rowCount := (Prod.mk.inj hat.dims).2
    rw [hdims', hdims, hheight, hwidth]
    rfl

end Transposes

/-! ## Doubles -/

section Doubles

open Float.Model (UnpackedFloat Format)

theorem unpacked_mul_comm (format : Format) (x y : UnpackedFloat) :
    UnpackedFloat.mul format x y = UnpackedFloat.mul format y x := by
  have hsign : ∀ s t : UnpackedFloat.Sign, s * t = t * s := by
    intro s t
    cases s <;> cases t <;> rfl
  cases x with
  | notANumber => cases y <;> rfl
  | infinity s =>
    cases y with
    | notANumber | zero => rfl
    | infinity t | finite t => exact congrArg UnpackedFloat.infinity (hsign s t)
  | zero s =>
    cases y with
    | notANumber | infinity => rfl
    | zero t | finite t => exact congrArg UnpackedFloat.zero (hsign s t)
  | finite s m i =>
    cases y with
    | notANumber => rfl
    | infinity t => exact congrArg UnpackedFloat.infinity (hsign s t)
    | zero t => exact congrArg UnpackedFloat.zero (hsign s t)
    | finite t n j =>
      show UnpackedFloat.roundWithAccuracy format (s * t) (m * n) (i + j) .exact = _
      rw [hsign, Nat.mul_comm, Int.add_comm]
      rfl

/-- Multiplication of doubles is commutative, rounding and special values included. -/
theorem float_mul_comm (x y : Float) : x * y = y * x := by
  show Float.ofModel (Float.Model.pack _) = Float.ofModel (Float.Model.pack _)
  rw [unpacked_mul_comm]

end Doubles

/-! ## The law -/

/-- **Transposition turns a product round.**  Whatever the sum, as long as multiplication is
commutative. -/
theorem transpose_mul (comm : ∀ x y : α, x * y = y * x) (sum : List α → Except ε α) (ha : a.Shaped)
    (hb : b.Shaped) :
    ∃ a' b', a.transpose? = some a' ∧ b.transpose? = some b' ∧ a'.transpose? = some a ∧
      ((∃ fault, a.mul sum b = .error fault) ↔ ∃ fault, b'.mul sum a' = .error fault) ∧
      (a.mul sum b = .error .inner ↔ b'.mul sum a' = .error .inner) ∧
      ∀ m, a.mul sum b = .ok m → ∃ m', m.transpose? = some m' ∧ b'.mul sum a' = .ok m' := by
  obtain ⟨a', hat⟩ := Transposed.exists_of_shaped ha
  obtain ⟨b', hbt⟩ := Transposed.exists_of_shaped hb
  refine ⟨a', b', hat.transpose?_eq, hbt.transpose?_eq, hat.symm.transpose?_eq, ?_, ?_, fun m hm => ?_⟩
  · have hok := exists_mul_transposed_iff comm ha hb hat hbt sum
    cases h : a.mul sum b <;> cases h' : b'.mul sum a' <;> simp_all
  · rw [mul_eq_inner_iff hb, mul_eq_inner_iff (hat.shaped ha), ne_eq, ne_eq, hat.inner_iff hbt]
  · obtain ⟨t, ht, hmul⟩ := transposed_of_mul comm ha hb hat hbt hm
    exact ⟨t, ht.transpose?_eq, hmul⟩

/-- Three rows of doubles and a column, with the sum that is rounded once. -/
theorem transpose_mul_doubles :
    ∃ a b a' b' m m' : Matrix Float, a.rows = [[1, 2], [3, 4], [5, 6]] ∧ b.rows = [[0.5], [1e20]] ∧
      (a.Shaped ∧ b.Shaped) ∧ a.transpose? = some a' ∧ b.transpose? = some b' ∧
      a.mul Number.exactSum b = .ok m ∧ m.transpose? = some m' ∧
      b'.mul Number.exactSum a' = .ok m' := by
  let a : Matrix Float := ⟨[[1, 2], [3, 4], [5, 6]], 2, by decide⟩
  let b : Matrix Float := ⟨[[0.5], [1e20]], 1, by decide⟩
  have hshaped : a.Shaped ∧ b.Shaped := ⟨shaped_iff.2 (by decide), shaped_iff.2 (by decide)⟩
  obtain ⟨a', b', ha', hb', -, -, -, hturned⟩ :=
    transpose_mul float_mul_comm Number.exactSum hshaped.1 hshaped.2
  have hok : (a.mul Number.exactSum b).toBool = true := by decide +kernel
  cases hm : a.mul Number.exactSum b with
  | error e =>
    rw [hm] at hok
    cases hok
  | ok m =>
    obtain ⟨m', hm', hmul⟩ := hturned m hm
    exact ⟨a, b, a', b', m, m', rfl, rfl, hshaped, ha', hb', hm, hm', hmul⟩

end Reckon.Matrix
