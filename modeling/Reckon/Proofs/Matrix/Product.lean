import Reckon.Proofs.Matrix.Grid
import Reckon.Value.Operation

/-!
# The algebra of products and powers

Over the rationals sums are exact, and the product of matrices as lists of rows is the product of linear
algebra: it has the grid of it (`mul_total`).  So it is associative, and a product of three matrices fails
on the one way of bracketing if and only if it fails on the other, though not always with the same
dimensions in its complaint (`product_assoc`).

A power is the identity multiplied on the right as often as the exponent says; its grid is the power of the
grid (`raised_natCast`), from which the laws of exponents follow.  Nothing but the two checks in front of
the loop can fail (`raised_laws`).
-/

namespace Reckon.Matrix

/-- The exact sum. -/
def total {ε : Type} (xs : List ℚ) : Except ε ℚ :=
  .ok xs.sum

/-- The product of rational matrices, with the failures of the operator. -/
def product (a b : Matrix ℚ) : Except Failure (Matrix ℚ) :=
  (a.mul total b).mapError (BinaryOp.matrixFailure a.dims b.dims 0)

/-- The double by which a message shows an exponent. -/
def shownExponent (q : ℚ) : Float :=
  Float.ofInt q.num / Float.ofNat q.den

/-- The power of a rational matrix, with the failures of the operator. -/
def raised (a : Matrix ℚ) (exponent : ℚ) : Except Failure (Matrix ℚ) :=
  (a.power total exponent).mapError (BinaryOp.matrixFailure a.dims a.dims (shownExponent exponent))

/-! ## Products -/

variable {ε : Type} {a b c m : Matrix ℚ} {height inner width n : Nat}

/-- No sum fails, so the rows of a product are the sums of the products of rows and columns. -/
theorem mul_total_of_make? (h : a.colCount = b.rowCount)
    (hmake : make? (a.rows.map fun row => (columns b.rows).map fun col =>
      (List.zipWith (· * ·) row col).sum) a.rowCount b.colCount = some m) :
    a.mul (total (ε := ε)) b = .ok m := by
  have hrows : (a.rows.mapM fun row => (columns b.rows).mapM (dot (total (ε := ε)) row)) =
      .ok (a.rows.map fun row => (columns b.rows).map fun col => (List.zipWith (· * ·) row col).sum) :=
    mapM_eq_ok fun row _ => mapM_eq_ok fun col _ => rfl
  unfold mul
  rw [if_pos h]
  dsimp only
  rw [hrows, ok_bind, hmake]

/-- The product of linear algebra. -/
theorem mul_total (ha : a.dims = ((height : Int), (inner : Int)))
    (hb : b.dims = ((inner : Int), (width : Int))) (hpos : 0 < inner) :
    ∃ m, a.mul (total (ε := ε)) b = .ok m ∧ m.dims = ((height : Int), (width : Int)) ∧
      grid height width m.rows = grid height inner a.rows * grid inner width b.rows := by
  have hrectA := rectangle_of_dims ha
  have hrectB := rectangle_of_dims hb
  have hcols := hrectB.columns hpos
  obtain ⟨harows, hacols⟩ := Prod.mk.inj ha
  obtain ⟨hbrows, hbcols⟩ := Prod.mk.inj hb
  have hrect : Rectangle height width (a.rows.map fun row => (columns b.rows).map fun col =>
      (List.zipWith (· * ·) row col).sum) := by
    refine ⟨by rw [List.length_map, hrectA.height_eq], fun r hr => ?_⟩
    obtain ⟨row, -, rfl⟩ := List.mem_map.1 hr
    rw [List.length_map, hcols.height_eq]
  obtain ⟨m, hmake, hdims⟩ := hrect.exists_make?
  refine ⟨m, ?_, hdims, ?_⟩
  · refine mul_total_of_make? (hacols.trans hbrows.symm) ?_
    rw [harows, hbcols, hmake]
  · obtain ⟨hrows, -, -⟩ := make?_eq_some_iff.1 hmake
    ext i j
    have hi : (i : Nat) < a.rows.length := hrectA.height_eq.symm ▸ i.isLt
    have hj : (j : Nat) < (columns b.rows).length := hcols.height_eq.symm ▸ j.isLt
    have hrow : a.rows.getD i [] = a.rows[(i : Nat)] := List.getD_eq_getElem _ _ hi
    have hcol : (columns b.rows).getD j [] = (columns b.rows)[(j : Nat)] := List.getD_eq_getElem _ _ hj
    calc grid height width m.rows i j
        = (List.zipWith (· * ·) a.rows[(i : Nat)] (columns b.rows)[(j : Nat)]).sum := by
          simp [grid_apply, hrows, entry, hi, hj]
      _ = ∑ k : Fin inner, entry (a.rows.getD i []) k * entry ((columns b.rows).getD j []) k := by
          rw [hrow, hcol]
          exact sum_zipWith_mul (hrectA.width_eq _ (List.getElem_mem hi))
            (hcols.width_eq _ (List.getElem_mem hj))
      _ = ∑ k : Fin inner, grid height inner a.rows i k * grid inner width b.rows k j :=
          Finset.sum_congr rfl fun k _ => by rw [entry_columns hrectB k.isLt j.isLt]; rfl
      _ = _ := (Matrix.mul_apply).symm

/-- Matrices that do not fit are refused. -/
theorem product_of_ne (h : a.colCount ≠ b.rowCount) :
    a.product b = .error (.ofCause (.dimensionMismatch (.inner a.dims b.dims))) := by
  have hmul : a.mul (total (ε := Number.SumFault)) b = .error .inner := if_neg h
  rw [product, hmul]
  rfl

/-- Matrices that fit have a product. -/
theorem exists_product (ha : a.dims = ((height : Int), (inner : Int)))
    (hb : b.dims = ((inner : Int), (width : Int))) (hpos : 0 < inner) :
    ∃ m, a.product b = .ok m ∧ m.dims = ((height : Int), (width : Int)) ∧
      grid height width m.rows = grid height inner a.rows * grid inner width b.rows := by
  obtain ⟨m, hm, hdims, hgrid⟩ := mul_total (ε := Number.SumFault) ha hb hpos
  refine ⟨m, ?_, hdims, hgrid⟩
  rw [product, hm]
  rfl

/-- Which dimensions the product of matrices that fit has. -/
theorem product_dims (ha : a.Shaped) (hb : b.Shaped) (h : a.colCount = b.rowCount) :
    ∃ m, a.product b = .ok m ∧ m.dims = ((a.rowCount : Int), b.colCount) := by
  obtain ⟨height, inner, -, hpos, hadims⟩ := ha.exists_dims
  obtain ⟨inner', width, -, -, hbdims⟩ := hb.exists_dims
  obtain ⟨harows, hacols⟩ := Prod.mk.inj hadims
  obtain ⟨hbrows, hbcols⟩ := Prod.mk.inj hbdims
  obtain rfl : inner = inner' := Int.ofNat.inj (hacols.symm.trans (h.trans hbrows))
  obtain ⟨m, hm, hdims, -⟩ := exists_product hadims hbdims hpos
  exact ⟨m, hm, by rw [hdims, harows, hbcols]⟩

/-- Three factors of which two neighbours do not fit, from the left. -/
theorem product_left_fails (ha : a.Shaped) (hb : b.Shaped)
    (h : a.colCount ≠ b.rowCount ∨ b.colCount ≠ c.rowCount) :
    ∃ d, (do (← a.product b).product c) = .error (.ofCause (.dimensionMismatch d)) := by
  by_cases hab : a.colCount = b.rowCount
  · obtain ⟨ab, hok, hdims⟩ := product_dims ha hb hab
    have habc : ab.colCount ≠ c.rowCount := by
      rw [(Prod.mk.inj hdims).2]
      exact h.resolve_left (not_not.2 hab)
    rw [hok, ok_bind, product_of_ne habc]
    exact ⟨_, rfl⟩
  · rw [product_of_ne hab]
    exact ⟨_, rfl⟩

/-- And from the right, where the complaint may be about other dimensions. -/
theorem product_right_fails (hb : b.Shaped) (hc : c.Shaped)
    (h : a.colCount ≠ b.rowCount ∨ b.colCount ≠ c.rowCount) :
    ∃ d, (do a.product (← b.product c)) = .error (.ofCause (.dimensionMismatch d)) := by
  by_cases hbc : b.colCount = c.rowCount
  · obtain ⟨bc, hok, hdims⟩ := product_dims hb hc hbc
    have habc : a.colCount ≠ bc.rowCount := by
      rw [(Prod.mk.inj hdims).1]
      exact h.resolve_right (not_not.2 hbc)
    rw [hok, ok_bind, product_of_ne habc]
    exact ⟨_, rfl⟩
  · rw [product_of_ne hbc]
    exact ⟨_, rfl⟩

/-- **Products are associative, and fail alike.** -/
theorem product_assoc (ha : a.Shaped) (hb : b.Shaped) (hc : c.Shaped) :
    ((a.colCount ≠ b.rowCount ∨ b.colCount ≠ c.rowCount) ∧
      (∃ d, (do (← a.product b).product c) = .error (.ofCause (.dimensionMismatch d))) ∧
      ∃ d, (do a.product (← b.product c)) = .error (.ofCause (.dimensionMismatch d))) ∨
    ((a.colCount = b.rowCount ∧ b.colCount = c.rowCount) ∧
      ∃ m, (do (← a.product b).product c) = .ok m ∧ (do a.product (← b.product c)) = .ok m ∧
        m.dims = ((a.rowCount : Int), c.colCount)) := by
  by_cases h : a.colCount = b.rowCount ∧ b.colCount = c.rowCount
  · obtain ⟨p, q, -, hq, hadims⟩ := ha.exists_dims
    obtain ⟨q', r, -, hr, hbdims⟩ := hb.exists_dims
    obtain ⟨r', s, -, -, hcdims⟩ := hc.exists_dims
    obtain ⟨harows, hacols⟩ := Prod.mk.inj hadims
    obtain ⟨hbrows, hbcols⟩ := Prod.mk.inj hbdims
    obtain ⟨hcrows, hccols⟩ := Prod.mk.inj hcdims
    obtain rfl : q = q' := Int.ofNat.inj (hacols.symm.trans (h.1.trans hbrows))
    obtain rfl : r = r' := Int.ofNat.inj (hbcols.symm.trans (h.2.trans hcrows))
    obtain ⟨ab, habOk, habDims, habGrid⟩ := exists_product hadims hbdims hq
    obtain ⟨bc, hbcOk, hbcDims, hbcGrid⟩ := exists_product hbdims hcdims hr
    obtain ⟨m, hm, hmDims, hmGrid⟩ := exists_product habDims hcdims hr
    obtain ⟨m', hm', hmDims', hmGrid'⟩ := exists_product hadims hbcDims hq
    have heq : m' = m := by
      refine ext_grid hmDims' hmDims ?_
      rw [hmGrid', hmGrid, habGrid, hbcGrid, Matrix.mul_assoc]
    refine .inr ⟨h, m, ?_, ?_, by rw [hmDims, harows, hccols]⟩
    · rw [habOk, ok_bind, hm]
    · rw [hbcOk, ok_bind, hm', heq]
  · have hne : a.colCount ≠ b.rowCount ∨ b.colCount ≠ c.rowCount := not_and_or.1 h
    exact .inl ⟨hne, product_left_fails ha hb hne, product_right_fails hb hc hne⟩

/-- A column between a square and a row. -/
theorem product_assoc_column :
    ∃ a b c : Matrix ℚ, a.rows = [[1, 2], [3, 4]] ∧ b.rows = [[1], [1 / 2]] ∧ c.rows = [[2, 0, -1]] ∧
      (a.Shaped ∧ b.Shaped ∧ c.Shaped) ∧
      ∃ m, (do (← a.product b).product c) = .ok m ∧ (do a.product (← b.product c)) = .ok m ∧
        m.dims = (2, 3) := by
  refine ⟨⟨[[1, 2], [3, 4]], 2, by decide⟩, ⟨[[1], [1 / 2]], 1, by decide⟩, ⟨[[2, 0, -1]], 3, by decide⟩,
    rfl, rfl, rfl, ?_⟩
  have hshaped : (⟨[[1, 2], [3, 4]], 2, by decide⟩ : Matrix ℚ).Shaped ∧
      (⟨[[1], [1 / 2]], 1, by decide⟩ : Matrix ℚ).Shaped ∧
      (⟨[[2, 0, -1]], 3, by decide⟩ : Matrix ℚ).Shaped :=
    ⟨shaped_iff.2 (by decide), shaped_iff.2 (by decide), shaped_iff.2 (by decide)⟩
  refine ⟨hshaped, ?_⟩
  obtain ⟨ha, hb, hc⟩ := hshaped
  rcases product_assoc ha hb hc with ⟨hne | hne, -⟩ | ⟨-, hm⟩
  · exact absurd rfl hne
  · exact absurd rfl hne
  · exact hm

/-! ## Powers -/

theorem grid_identity (n : Nat) : grid n n (identity n).rows = 1 := by
  ext i j
  have hrow : ((identity n : Matrix ℚ).rows.getD i []) =
      (List.range n).map fun j => if (i : Nat) = j then Scalar.one else Scalar.zero := by
    simp [identity, identityRows]
  rw [grid_apply, hrow, Matrix.one_apply]
  simp [entry, Fin.ext_iff, zero_eq, one_eq]

/-- Each round multiplies by the base. -/
theorem mulTimes_total {base acc : Matrix ℚ} (hpos : 0 < n) (hbase : base.dims = ((n : Int), (n : Int)))
    (hacc : acc.dims = ((n : Int), (n : Int))) (k : Nat) :
    ∃ m, mulTimes (total (ε := ε)) base k acc = .ok m ∧ m.dims = ((n : Int), (n : Int)) ∧
      grid n n m.rows = grid n n acc.rows * grid n n base.rows ^ k := by
  induction k generalizing acc with
  | zero => exact ⟨acc, rfl, hacc, by rw [pow_zero, mul_one]⟩
  | succ k ih =>
    obtain ⟨next, hnext, hdims, hgrid⟩ := mul_total (ε := ε) hacc hbase hpos
    obtain ⟨m, hm, hmDims, hmGrid⟩ := ih hdims
    refine ⟨m, ?_, hmDims, ?_⟩
    · rw [mulTimes, hnext]
      exact hm
    · rw [hmGrid, hgrid, mul_assoc, ← pow_succ']

theorem toNat?_eq (q : ℚ) :
    Scalar.toNat? q = if q.den = 1 ∧ 0 ≤ q.num then some q.num.toNat else none := rfl

/-- Which rationals count as natural numbers. -/
theorem toNat?_eq_some_iff {q : ℚ} {k : Nat} : Scalar.toNat? q = some k ↔ q = k := by
  constructor
  · intro h
    obtain ⟨⟨hden, hnum⟩, hk⟩ := Option.ite_none_right_eq_some.1 (toNat?_eq q ▸ h)
    rw [← Option.some.inj hk, ← Int.cast_natCast, Int.toNat_of_nonneg hnum]
    exact ((Rat.den_eq_one_iff q).1 hden).symm
  · rintro rfl
    exact if_pos ⟨Rat.den_natCast k, by simp⟩

/-- The others are negative or no whole numbers. -/
theorem toNat?_eq_none_iff {q : ℚ} : Scalar.toNat? q = none ↔ q < 0 ∨ ∀ z : Int, q ≠ z := by
  have hwhole : ¬q.den = 1 ↔ ∀ z : Int, q ≠ z := by
    rw [Rat.den_eq_one_iff]
    constructor
    · rintro h z rfl
      exact h (by simp)
    · intro h hq
      exact h q.num hq.symm
  have hnone : Scalar.toNat? q = none ↔ ¬(q.den = 1 ∧ 0 ≤ q.num) := by
    rw [toNat?_eq]
    simp
  rw [hnone, not_and_or, not_le, Rat.num_neg, hwhole, or_comm]

theorem dims_of_isSquare (h : m.isSquare = true) : m.dims = ((m.rowCount : Int), (m.rowCount : Int)) := by
  have hcols : (m.rowCount : Int) = m.colCount := by simpa [isSquare] using h
  rw [dims, ← hcols]

/-- A natural power has the power of the grid. -/
theorem raised_natCast (hpos : 0 < n) (hm : m.dims = ((n : Int), (n : Int))) (k : Nat) :
    ∃ r, m.raised k = .ok r ∧ r.dims = ((n : Int), (n : Int)) ∧
      grid n n r.rows = grid n n m.rows ^ k := by
  obtain ⟨hrows, hcols⟩ := Prod.mk.inj hm
  obtain rfl : m.rowCount = n := Int.ofNat.inj hrows
  have hsquare : m.isSquare = true := by simp [isSquare, hcols]
  obtain ⟨r, hr, hdims, hgrid⟩ :=
    mulTimes_total (ε := Number.SumFault) hpos hm (dims_identity m.rowCount) k
  have hpower : m.power (total (ε := Number.SumFault)) k = .ok r := by
    rw [power, if_pos hsquare, toNat?_eq_some_iff.2 rfl]
    exact hr
  refine ⟨r, ?_, hdims, ?_⟩
  · rw [raised, hpower]
    rfl
  · rw [hgrid, grid_identity, one_mul]

theorem raised_of_not_square (h : m.isSquare = false) (q : ℚ) :
    m.raised q = .error (.ofCause (.dimensionMismatch .powerNotSquare)) := by
  have hpower : m.power (total (ε := Number.SumFault)) q = .error .notSquare := by
    rw [power, h]
    rfl
  rw [raised, hpower]
  rfl

theorem raised_of_toNat?_eq_none (h : m.isSquare = true) {q : ℚ} (hq : Scalar.toNat? q = none) :
    m.raised q = .error (.ofCause (.evaluation (.matrixExponent (shownExponent q)))) := by
  have hpower : m.power (total (ε := Number.SumFault)) q = .error .exponent := by
    rw [power, if_pos h, hq]
  rw [raised, hpower]
  rfl

/-- A power fails for one of two reasons, the one about the matrix first. -/
theorem raised_eq_error_iff (hm : m.Shaped) (q : ℚ) :
    (∃ e, m.raised q = .error e) ↔ m.isSquare = false ∨ q < 0 ∨ ∀ z : Int, q ≠ z := by
  rw [← toNat?_eq_none_iff]
  cases hsquare : m.isSquare with
  | false => exact ⟨fun _ => .inl rfl, fun _ => ⟨_, raised_of_not_square hsquare q⟩⟩
  | true =>
    cases hq : Scalar.toNat? q with
    | none => exact ⟨fun _ => .inr rfl, fun _ => ⟨_, raised_of_toNat?_eq_none hsquare hq⟩⟩
    | some k =>
      obtain rfl := toNat?_eq_some_iff.1 hq
      obtain ⟨r, hr, -, -⟩ := raised_natCast hm.rows_pos (dims_of_isSquare hsquare) k
      simp [hr]

section Exponents

variable (hpos : 0 < n) (hm : m.dims = ((n : Int), (n : Int)))

include hpos hm

theorem raised_zero : m.raised 0 = .ok (identity n) := by
  obtain ⟨r, hr, hdims, hgrid⟩ := raised_natCast hpos hm 0
  have heq : r = identity n := ext_grid hdims (dims_identity n) (by rw [hgrid, grid_identity, pow_zero])
  rw [← heq, ← hr, Nat.cast_zero]

theorem raised_one : m.raised 1 = .ok m := by
  obtain ⟨r, hr, hdims, hgrid⟩ := raised_natCast hpos hm 1
  have heq : r = m := ext_grid hdims hm (by rw [hgrid, pow_one])
  rw [heq, Nat.cast_one] at hr
  exact hr

theorem raised_add (j k : Nat) :
    m.raised (j + k : Nat) = (do (← m.raised j).product (← m.raised k)) := by
  obtain ⟨x, hx, hxDims, hxGrid⟩ := raised_natCast hpos hm j
  obtain ⟨y, hy, hyDims, hyGrid⟩ := raised_natCast hpos hm k
  obtain ⟨r, hr, hrDims, hrGrid⟩ := raised_natCast hpos hm (j + k)
  obtain ⟨xy, hxy, hxyDims, hxyGrid⟩ := exists_product hxDims hyDims hpos
  have heq : r = xy := ext_grid hrDims hxyDims (by rw [hrGrid, hxyGrid, hxGrid, hyGrid, pow_add])
  rw [hr, hx, hy, ok_bind, ok_bind, hxy, heq]

theorem raised_mul (j k : Nat) : m.raised (j * k : Nat) = (do (← m.raised j).raised k) := by
  obtain ⟨x, hx, hxDims, hxGrid⟩ := raised_natCast hpos hm j
  obtain ⟨r, hr, hrDims, hrGrid⟩ := raised_natCast hpos hm (j * k)
  obtain ⟨z, hz, hzDims, hzGrid⟩ := raised_natCast hpos hxDims k
  have heq : r = z := ext_grid hrDims hzDims (by rw [hrGrid, hzGrid, hxGrid, pow_mul])
  rw [hr, hx, ok_bind, hz, heq]

end Exponents

/-- **The laws of exponents, and which powers there are.** -/
theorem raised_laws (hm : m.Shaped) :
    (m.isSquare = true → m.raised 0 = .ok (identity m.rowCount) ∧ m.raised 1 = .ok m ∧
      ∀ j k : Nat, m.raised (j + k : Nat) = (do (← m.raised j).product (← m.raised k)) ∧
        m.raised (j * k : Nat) = (do (← m.raised j).raised k)) ∧
    ∀ q : ℚ, ((∃ e, m.raised q = .error e) ↔ m.isSquare = false ∨ q < 0 ∨ ∀ z : Int, q ≠ z) ∧
      (m.isSquare = false → m.raised q = .error (.ofCause (.dimensionMismatch .powerNotSquare))) ∧
      (m.isSquare = true → (q < 0 ∨ ∀ z : Int, q ≠ z) →
        m.raised q = .error (.ofCause (.evaluation (.matrixExponent (shownExponent q))))) := by
  constructor
  · intro hsquare
    have hpos := hm.rows_pos
    have hdims := dims_of_isSquare hsquare
    exact ⟨raised_zero hpos hdims, raised_one hpos hdims, fun j k =>
      ⟨raised_add hpos hdims j k, raised_mul hpos hdims j k⟩⟩
  · intro q
    refine ⟨raised_eq_error_iff hm q, fun hsquare => raised_of_not_square hsquare q, fun hsquare hq => ?_⟩
    exact raised_of_toNat?_eq_none hsquare (toNat?_eq_none_iff.2 hq)

/-- A shear: its fifth power in two factors, its sixth in two steps, and no square root. -/
theorem raised_laws_shear :
    ∃ m : Matrix ℚ, m.rows = [[1, 1], [0, 1]] ∧ m.Shaped ∧ m.isSquare = true ∧
      m.raised (2 + 3 : Nat) = (do (← m.raised (2 : Nat)).product (← m.raised (3 : Nat))) ∧
      m.raised (2 * 3 : Nat) = (do (← m.raised (2 : Nat)).raised (3 : Nat)) ∧
      ∃ e, m.raised (1 / 2) = .error e := by
  have hshaped : (⟨[[1, 1], [0, 1]], 2, by decide⟩ : Matrix ℚ).Shaped := shaped_iff.2 (by decide)
  obtain ⟨hlaws, hfails⟩ := raised_laws hshaped
  obtain ⟨-, -, hnat⟩ := hlaws rfl
  refine ⟨_, rfl, hshaped, rfl, (hnat 2 3).1, (hnat 2 3).2, ?_⟩
  refine (hfails (1 / 2)).1.2 (.inr (.inr fun z hz => ?_))
  have hden : (1 / 2 : ℚ).den = 1 := by rw [hz, Rat.den_intCast]
  exact absurd hden (by decide +kernel)

end Reckon.Matrix
