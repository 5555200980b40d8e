import Reckon.Proofs.Matrix.Shape
import Reckon.Proofs.Value.Yields

/-!
# Operators and native functions keep matrices in shape

Operators check the dimensions of their operands before they compute, and what they complain of is the
operands.  The complaint that rows do not fit is about what they have computed themselves, and it would
be a fault of theirs.  It never arises: operands that have a row and a column give such a matrix, or some
other failure (`BinaryOp.apply_shaped`, `Builtin.apply_shaped`).  Which dimensions come out is known from
those of the operands.
-/

namespace Reckon

/-- A matrix has a row and a column; nothing is asked of other values. -/
def Value.Shaped : Value → Prop
  | .matrix m => m.Shaped
  | _ => True

/-- The failure is not the complaint that rows do not fit. -/
def Failure.NotRagged : Failure → Prop
  | .reported e => e.cause ≠ .dimensionMismatch .ragged
  | .mishap _ => True

/-- A shaped value, or a failure that is not that complaint. -/
abbrev InShape : Except Failure Value → Prop :=
  Outcome Value.Shaped Failure.NotRagged

theorem Failure.NotRagged.locate {f : Failure} (h : f.NotRagged) (s : Option Span) :
    (f.locate s).NotRagged := by
  cases f with
  | mishap c => trivial
  | reported e =>
    show (e.locate s).cause ≠ _
    rw [Error.locate_cause]
    exact h

/-- A place makes no difference. -/
theorem Outcome.inShape_located {r : Except Failure Value} (h : InShape r) (s : Option Span) :
    Outcome Value.Shaped (fun e => (e.locate s).NotRagged) r :=
  h.mono (fun _ hv => hv) fun _ he => he.locate s

namespace BinaryOp

variable {a b : Matrix Float}

/-! ## Dimensions -/

/-- Entry by entry: the dimensions that both have. -/
theorem entrywise_dims (op : BinaryOp) (f : Float → Float → Float) (ha : a.Shaped)
    (h : a.dims = b.dims) : ∃ m, entrywise op f a b = .ok (.matrix m) ∧ m.dims = a.dims := by
  obtain ⟨m, hm, hdims⟩ := Matrix.zipWith?_dims f ha h
  refine ⟨m, ?_, hdims⟩
  unfold entrywise
  rw [hm]

/-- A product: the rows of the left one and the columns of the right one. -/
theorem matrixProduct_dims (hb : b.Shaped) (hinner : a.colCount = b.rowCount) :
    (∃ m, matrixProduct a b = .ok (.matrix m) ∧ m.dims = ((a.rowCount : Int), b.colCount)) ∨
      ∃ fault, matrixProduct a b = .error (.mishap (.sum fault)) := by
  unfold matrixProduct
  rcases Matrix.mul_dims Number.exactSum hb hinner with ⟨m, hm, hdims⟩ | ⟨fault, hfault⟩
  · rw [hm]
    exact .inl ⟨m, rfl, hdims⟩
  · rw [hfault]
    exact .inr ⟨fault, rfl⟩

/-- A natural power: the dimensions of the square. -/
theorem matrixPower_dims {y : Float} {n : Nat} (ha : a.Shaped) (hsquare : a.isSquare = true)
    (hn : floatToNat? y = some n) :
    (∃ m, matrixPower a y = .ok (.matrix m) ∧ m.dims = a.dims) ∨
      ∃ fault, matrixPower a y = .error (.mishap (.sum fault)) := by
  unfold matrixPower
  rcases Matrix.power_dims Number.exactSum ha hsquare hn with ⟨m, hm, hdims⟩ | ⟨fault, hfault⟩
  · rw [hm]
    exact .inl ⟨m, rfl, hdims⟩
  · rw [hfault]
    exact .inr ⟨fault, rfl⟩

/-- The product as an operator has it, where it is defined. -/
theorem mul_dims (hb : b.Shaped) (hinner : a.colCount = b.rowCount) :
    (∃ m, mul.apply (.matrix a) (.matrix b) = .ok (.matrix m) ∧
      m.dims = ((a.rowCount : Int), b.colCount)) ∨ ∃ c, mul.Undefined (.matrix a) (.matrix b) c := by
  rcases matrixProduct_dims hb hinner with hm | ⟨fault, hfault⟩
  · exact .inl hm
  · exact .inr ⟨_, apply_mishap_iff.1 hfault⟩

/-- So too the power, of which the exponent may be a truth value. -/
theorem pow_dims {v : Value} {y : Float} {n : Nat} (ha : a.Shaped) (hsquare : a.isSquare = true)
    (hv : v.number? = some y) (hn : floatToNat? y = some n) :
    (∃ m, pow.apply (.matrix a) v = .ok (.matrix m) ∧ m.dims = a.dims) ∨
      ∃ c, pow.Undefined (.matrix a) v c := by
  have hpower : pow.apply (.matrix a) v = matrixPower a y := by
    cases v with
    | number x unit =>
      cases hv
      rfl
    | boolean b =>
      cases hv
      rfl
    | matrix m => cases hv
  rcases matrixPower_dims ha hsquare hn with hm | ⟨fault, hfault⟩
  · exact .inl (hpower ▸ hm)
  · exact .inr ⟨_, apply_mishap_iff.1 (hpower.trans hfault)⟩

/-! ## Every operator -/

theorem entrywise_shaped (op : BinaryOp) (f : Float → Float → Float) (ha : a.Shaped) :
    InShape (entrywise op f a b) := by
  by_cases h : a.dims = b.dims
  · obtain ⟨m, hm, hdims⟩ := entrywise_dims op f ha h
    rw [hm]
    exact ha.congr hdims
  · have hnone : a.zipWith? f b = none := if_neg h
    unfold entrywise
    rw [hnone]
    rintro ⟨⟩

theorem matrixProduct_shaped (ha : a.Shaped) (hb : b.Shaped) : InShape (matrixProduct a b) := by
  by_cases h : a.colCount = b.rowCount
  · rcases matrixProduct_dims hb h with ⟨m, hm, hdims⟩ | ⟨fault, hfault⟩
    · rw [hm]
      show m.Shaped
      rw [Matrix.shaped_iff, hdims]
      exact ⟨Int.ofNat_le.2 ha.rows_pos, hb.cols_pos⟩
    · rw [hfault]
      trivial
  · have hinner : a.mul Number.exactSum b = .error .inner := if_neg h
    unfold matrixProduct
    rw [hinner]
    rintro ⟨⟩

theorem matrixPower_shaped (ha : a.Shaped) (y : Float) : InShape (matrixPower a y) := by
  by_cases hsquare : a.isSquare = true
  · cases hn : floatToNat? y with
    | some n =>
      rcases matrixPower_dims ha hsquare hn with ⟨m, hm, hdims⟩ | ⟨fault, hfault⟩
      · rw [hm]
        exact ha.congr hdims
      · rw [hfault]
        trivial
    | none =>
      have hexponent : a.power Number.exactSum y = .error .exponent := by
        have hn' : Scalar.toNat? y = none := hn
        unfold Matrix.power
        rw [if_pos hsquare, hn']
      unfold matrixPower
      rw [hexponent]
      rintro ⟨⟩
  · have hnotSquare : a.power Number.exactSum y = .error .notSquare := if_neg hsquare
    unfold matrixPower
    rw [hnotSquare]
    rintro ⟨⟩

theorem apply_shaped (op : BinaryOp) {left right : Value} (hleft : left.Shaped)
    (hright : right.Shaped) : InShape (op.apply left right) := by
  have h := op.apply_yields left right
  generalize op.apply left right = r at h ⊢
  cases h with
  | number | truth | mishap => trivial
  | @map m f h =>
    have hm : m.Shaped := by
      rcases h with rfl | rfl
      · exact hleft
      · exact hright
    exact hm.congr (Matrix.dims_map f m)
  | entrywise op f hl hr =>
    subst hl
    exact entrywise_shaped op f hleft
  | product hl hr =>
    subst hl hr
    exact matrixProduct_shaped hleft hright
  | power hl y =>
    subst hl
    exact matrixPower_shaped hleft y
  | refused c hc =>
    rintro rfl
    cases hc

end BinaryOp

theorem UnaryOp.apply_shaped (op : UnaryOp) {v : Value} (hv : v.Shaped) : InShape (op.apply v) := by
  cases op with
  | plus => exact hv
  | minus => exact BinaryOp.apply_shaped .mul hv trivial
  | not =>
    cases v with
    | boolean b => trivial
    | number x unit => rintro ⟨⟩
    | matrix m => rintro ⟨⟩

/-! ## Native functions and literals -/

namespace Builtin

variable {m : Matrix Float} {v : Value}

theorem transposed_dims (hm : m.Shaped) :
    ∃ t, shaped m.transpose? = .ok (.matrix t) ∧ t.dims = m.dims.swap := by
  obtain ⟨t, ht, hdims⟩ := Matrix.transpose?_dims hm
  exact ⟨t, by rw [ht, shaped], hdims⟩

theorem reduced_dims (hm : m.Shaped) :
    ∃ r, shaped (m.reduced? threshold) = .ok (.matrix r) ∧ r.dims = m.dims := by
  obtain ⟨r, hr, hdims⟩ := Matrix.reduced?_dims threshold hm
  exact ⟨r, by rw [hr, shaped], hdims⟩

/-- A function of matrices, given a value. -/
theorem matrixArgument_shaped (function : String) (hv : v.Shaped) :
    Outcome Matrix.Shaped Failure.NotRagged (matrixArgument function v) := by
  cases v with
  | matrix m => exact hv
  | number x unit => rintro ⟨⟩
  | boolean b => rintro ⟨⟩

theorem apply_shaped (b : Builtin) (hv : v.Shaped) : InShape (b.apply v) := by
  cases b with
  | transpose | trans =>
    refine (matrixArgument_shaped _ hv).bind fun m hm => ?_
    obtain ⟨t, ht, hdims⟩ := transposed_dims hm
    obtain ⟨hrows, hcols⟩ := Matrix.shaped_iff.1 hm
    rw [ht]
    show t.Shaped
    rw [Matrix.shaped_iff, hdims]
    exact ⟨hcols, hrows⟩
  | rref =>
    refine (matrixArgument_shaped _ hv).bind fun m hm => ?_
    obtain ⟨r, hr, hdims⟩ := reduced_dims hm
    rw [hr]
    exact hm.congr hdims
  | det | determinant =>
    refine (matrixArgument_shaped _ hv).bind fun m _ => ?_
    split
    · trivial
    · rintro ⟨⟩
  | sqrt =>
    unfold apply numberArgument
    cases v.number? with
    | none => rintro ⟨⟩
    | some x =>
      show InShape (if x < 0 then _ else _)
      split
      · rintro ⟨⟩
      · trivial

/-- Cells in at least one row, all rows of one length that is not zero. -/
theorem ofRows_shaped {cells : List (List Float)} {width : Nat} (hne : cells ≠ []) (hwidth : 0 < width)
    (h : ∀ xs ∈ cells, xs.length = width) : InShape (shaped (Matrix.ofRows? cells)) := by
  have hpos : 0 < cells.length := List.length_pos_iff.2 hne
  obtain ⟨m, hm, hdims⟩ := (⟨rfl, h⟩ : Matrix.Rectangle cells.length width cells).exists_ofRows? hpos
  rw [hm]
  show m.Shaped
  rw [Matrix.shaped_iff, hdims]
  exact ⟨Int.ofNat_le.2 hpos, Int.ofNat_le.2 hwidth⟩

end Builtin

end Reckon
