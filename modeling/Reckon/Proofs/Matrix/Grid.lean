import Mathlib.Algebra.BigOperators.Fin
import Mathlib.Algebra.Order.Ring.Unbundled.Rat
import Mathlib.Data.List.GetD
import Mathlib.Data.Matrix.Mul
import Reckon.Proofs.Matrix.Shape

/-!
# Rows as a matrix of linear algebra

The rows of a rational matrix, read as a matrix over `Fin height` and `Fin width` (`grid`).  Two rectangles
of the same size with the same grid are the same rows (`eq_of_grid`), so an equation between matrices can be
proved about their grids.  What is needed to read the operations on rows there is the entry of a list of
columns (`entry_columns`) and the sum of the products of a row and a column (`sum_zipWith_mul`).
-/

namespace Reckon.Matrix

/-! ## Entries -/

section Entries

variable {α : Type} [Scalar α] {height width : Nat} {rows : List (List α)}

theorem entry_of_lt {row : List α} {c : Nat} (h : c < row.length) : entry row c = row[c] :=
  List.getD_eq_getElem row Scalar.zero h

theorem entry_of_le {row : List α} {c : Nat} (h : row.length ≤ c) : entry row c = Scalar.zero :=
  List.getD_eq_default row Scalar.zero h

theorem entry_map {f : α → α} (hf : f Scalar.zero = Scalar.zero) (row : List α) (c : Nat) :
    entry (row.map f) c = f (entry row c) := by
  have hmap : (row.map f).getD c (f Scalar.zero) = f (entry row c) := List.getD_map ..
  rwa [hf] at hmap

/-- Rows of the same length with the same entries are equal. -/
theorem row_ext {row row' : List α} (hlength : row.length = row'.length)
    (h : ∀ c < row.length, entry row c = entry row' c) : row = row' := by
  refine List.ext_getElem hlength fun c hc hc' => ?_
  rw [← entry_of_lt hc, ← entry_of_lt hc']
  exact h c hc

/-- Rectangles of the same size with the same entries are equal. -/
theorem Rectangle.ext {rows' : List (List α)} (h : Rectangle height width rows)
    (h' : Rectangle height width rows')
    (hentry : ∀ i < height, ∀ j < width, entry (rows.getD i []) j = entry (rows'.getD i []) j) :
    rows = rows' := by
  refine List.ext_getElem (h.height_eq.trans h'.height_eq.symm) fun i hi hi' => ?_
  have hwidth : rows[i].length = width := h.width_eq _ (List.getElem_mem hi)
  have hwidth' : rows'[i].length = width := h'.width_eq _ (List.getElem_mem hi')
  refine row_ext (hwidth.trans hwidth'.symm) fun j hj => ?_
  have hij := hentry i (h.height_eq ▸ hi) j (hwidth ▸ hj)
  rwa [List.getD_eq_getElem rows [] hi, List.getD_eq_getElem rows' [] hi'] at hij

/-- Columns have the entries of the rows, with the places exchanged. -/
theorem entry_columns (h : Rectangle height width rows) {i j : Nat} (hi : i < height) (hj : j < width) :
    entry ((columns rows).getD j []) i = entry (rows.getD i []) j := by
  obtain ⟨rfl, hwidth⟩ := h
  fun_induction columns rows generalizing i with
  | case1 => cases hi
  | case2 r =>
    have hr : j < r.length := (hwidth r List.mem_cons_self).symm ▸ hj
    obtain rfl : i = 0 := by simpa using hi
    simp [entry, hr]
  | case3 r s rest ih =>
    obtain ⟨hr, hrest⟩ := List.forall_mem_cons.1 hwidth
    have hcols : (columns (s :: rest)).length = width :=
      (Rectangle.columns ⟨rfl, hrest⟩ (Nat.succ_pos _)).height_eq
    have hcol : (List.zipWith List.cons r (columns (s :: rest))).getD j [] =
        r[j] :: (columns (s :: rest)).getD j [] := by
      simp [hcols, hj, hr]
    rw [hcol]
    cases i with
    | zero => simp [entry, hr, hj]
    | succ i => exact ih hrest (Nat.lt_of_succ_lt_succ hi)

end Entries

/-! ## Grids -/

variable {height width : Nat} {rows rows' : List (List ℚ)}

theorem zero_eq : (Scalar.zero : ℚ) = 0 := rfl

theorem one_eq : (Scalar.one : ℚ) = 1 := rfl

/-- So many rows and columns as a matrix of linear algebra. -/
def grid (height width : Nat) (rows : List (List ℚ)) :=
  Matrix.of fun (i : Fin height) (j : Fin width) => entry (rows.getD i []) j

theorem grid_apply (i : Fin height) (j : Fin width) :
    grid height width rows i j = entry (rows.getD i []) j := rfl

theorem eq_of_grid (h : Rectangle height width rows) (h' : Rectangle height width rows')
    (hgrid : grid height width rows = grid height width rows') : rows = rows' :=
  h.ext h' fun i hi j hj => congrFun (congrFun hgrid ⟨i, hi⟩) ⟨j, hj⟩

/-- The sum of the products of two lists, entry by entry. -/
theorem sum_zipWith_mul {xs ys : List ℚ} {n : Nat} (hx : xs.length = n) (hy : ys.length = n) :
    (List.zipWith (· * ·) xs ys).sum = ∑ k : Fin n, entry xs k * entry ys k := by
  induction n generalizing xs ys with
  | zero =>
    obtain rfl := List.length_eq_zero_iff.1 hx
    simp
  | succ n ih =>
    obtain ⟨x, xs, rfl⟩ := List.exists_cons_of_length_eq_add_one hx
    obtain ⟨y, ys, rfl⟩ := List.exists_cons_of_length_eq_add_one hy
    rw [Fin.sum_univ_succ, List.zipWith_cons_cons, List.sum_cons,
      ih (Nat.succ.inj hx) (Nat.succ.inj hy)]
    rfl

/-- A matrix is known by its dimensions and its grid. -/
theorem ext_grid {a b : Matrix ℚ} (ha : a.dims = ((height : Int), (width : Int)))
    (hb : b.dims = ((height : Int), (width : Int)))
    (hgrid : grid height width a.rows = grid height width b.rows) : a = b :=
  Matrix.ext (eq_of_grid (rectangle_of_dims ha) (rectangle_of_dims hb) hgrid)
    ((Prod.mk.inj ha).2.trans (Prod.mk.inj hb).2.symm)

end Reckon.Matrix
