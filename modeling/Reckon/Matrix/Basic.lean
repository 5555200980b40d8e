/-!
# Matrices

A matrix is a list of rows together with its number of columns, which fits every row.  A matrix
without rows still has a number of columns, so that a `0 x 3` and a `0 x 0` matrix differ; no row
speaks against any whole number there, and so a negative one is let through too.

`make?` is the way in: it checks that rows fit given dimensions.  `map` and `zipWith?` keep the
shape; `transpose?` and the product (`Matrix.Product`) build new rows and so go through `make?`.
-/

namespace Reckon

/-- A matrix with entries in `α`. -/
structure Matrix (α : Type) where
  rows : List (List α)
  colCount : Int
  row_length : ∀ r ∈ rows, (r.length : Int) = colCount

namespace Matrix

variable {α β γ : Type}

/-- The number of rows. -/
def rowCount (m : Matrix α) : Nat :=
  m.rows.length

/-- The matrix with these rows, if they fit the dimensions. -/
def make? (rows : List (List α)) (rowCount colCount : Int) : Option (Matrix α) :=
  if h : (rows.length : Int) = rowCount ∧ ∀ r ∈ rows, (r.length : Int) = colCount then
    some ⟨rows, colCount, h.2⟩
  else none

/-- The matrix with these rows, its dimensions taken from them. -/
def ofRows? (rows : List (List α)) : Option (Matrix α) :=
  make? rows rows.length ((rows.head?.elim 0 List.length : Nat) : Int)

/-- Rows and columns, in that order. -/
def dims (m : Matrix α) : Int × Int :=
  (m.rowCount, m.colCount)

/-- As many rows as columns. -/
def isSquare (m : Matrix α) : Bool :=
  (m.rowCount : Int) == m.colCount

/-- The function applied to every entry. -/
def map (f : α → β) (m : Matrix α) : Matrix β where
  rows := m.rows.map (List.map f)
  colCount := m.colCount
  row_length := by
    intro r hr
    obtain ⟨s, hs, rfl⟩ := List.mem_map.1 hr
    rw [List.length_map, m.row_length s hs]

/-- The function applied to entries at the same place, for matrices of the same dimensions. -/
def zipWith? (f : α → β → γ) (a : Matrix α) (b : Matrix β) : Option (Matrix γ) :=
  if a.dims = b.dims then
    make? (List.zipWith (List.zipWith f) a.rows b.rows) a.rowCount a.colCount
  else none

/-- The columns of a list of rows, as many as the shortest row has entries. -/
def columns : List (List α) → List (List α)
  | [] => []
  | [r] => r.map fun x => [x]
  | r :: s :: rest => List.zipWith List.cons r (columns (s :: rest))

/-- Rows and columns exchanged.  There are no columns to be seen in a matrix without rows, so that
one fails unless it has none. -/
def transpose? (m : Matrix α) : Option (Matrix α) :=
  make? (columns m.rows) m.colCount m.rowCount

/-- Same dimensions and equal entries.  Entries are compared as what they are, never as the one object that both
sides may hold: a matrix with an entry that is not a number differs from every matrix, itself included.  That an
object is taken for equal to itself before its contents are looked at is not modelled. -/
def same [BEq α] (a b : Matrix α) : Bool :=
  a.dims == b.dims && a.rows == b.rows

/-! ## Which rows make a matrix -/

theorem make?_eq_some_iff {rows : List (List α)} {r c : Int} {m : Matrix α} :
    make? rows r c = some m ↔ m.rows = rows ∧ (m.rowCount : Int) = r ∧ m.colCount = c := by
  unfold make?
  split
  · rename_i h
    constructor
    · intro e
      cases e
      exact ⟨rfl, h.1, rfl⟩
    · rintro ⟨rfl, -, rfl⟩
      rfl
  · rename_i h
    constructor
    · intro e
      cases e
    · rintro ⟨rfl, rfl, rfl⟩
      exact absurd ⟨rfl, m.row_length⟩ h

theorem make?_isSome_iff {rows : List (List α)} {r c : Int} :
    (make? rows r c).isSome = true ↔
      (rows.length : Int) = r ∧ ∀ x ∈ rows, (x.length : Int) = c := by
  unfold make?
  split <;> simp_all

/-- A matrix is made by its own rows and dimensions. -/
theorem make?_self (m : Matrix α) : make? m.rows m.rowCount m.colCount = some m :=
  make?_eq_some_iff.2 ⟨rfl, rfl, rfl⟩

@[ext]
theorem ext {a b : Matrix α} (hr : a.rows = b.rows) (hc : a.colCount = b.colCount) : a = b := by
  cases a
  cases b
  cases hr
  cases hc
  rfl

@[simp]
theorem rowCount_map (f : α → β) (m : Matrix α) : (m.map f).rowCount = m.rowCount :=
  List.length_map _

@[simp]
theorem dims_map (f : α → β) (m : Matrix α) : (m.map f).dims = m.dims := by
  simp [dims, map, rowCount]

end Matrix

end Reckon
