import Reckon.Value.Builtin

/-!
# What operators can do

An operator has a case for each kind of operand.  Most properties of its results need only a few of the
differences: whether a number, a truth value or a matrix comes out, and how the matrix was made
(`BinaryOp.Yields`).  Every complaint that is not one of two matrices about their dimensions is listed
together.  What holds of results and of failures is said of both at once (`Outcome`).
-/

namespace Reckon

/-- A result satisfies `V`, a failure `E`. -/
def Outcome {α : Type} (V : α → Prop) (E : Failure → Prop) : Except Failure α → Prop
  | .ok a => V a
  | .error e => E e

section Outcome

variable {α β : Type} {V V' : α → Prop} {W : β → Prop} {E E' : Failure → Prop}

@[simp]
theorem outcome_ok {a : α} : Outcome V E (.ok a) ↔ V a :=
  Iff.rfl

@[simp]
theorem outcome_error {e : Failure} : Outcome V E (.error e) ↔ E e :=
  Iff.rfl

theorem Outcome.mono {r : Except Failure α} (h : Outcome V E r) (hV : ∀ a, V a → V' a)
    (hE : ∀ e, E e → E' e) : Outcome V' E' r := by
  cases r with
  | ok a => exact hV a h
  | error e => exact hE e h

theorem Outcome.bind {r : Except Failure α} {f : α → Except Failure β} (h : Outcome V E r)
    (hf : ∀ a, V a → Outcome W E (f a)) : Outcome W E (r >>= f) := by
  cases r with
  | ok a => exact hf a h
  | error e => exact h

/-- The error that an outcome reports. -/
def reported? : Except Failure α → Option Error
  | .error (.reported e) => some e
  | _ => none

theorem reported?_eq_some_iff {r : Except Failure α} {e : Error} :
    reported? r = some e ↔ r = .error (.reported e) := by
  rcases r with (e' | c) | a <;> simp [reported?]

/-- A run that reports an error, with the state it leaves. -/
theorem eq_of_reported? {σ : Type} {r : Except Failure α × σ} {e : Error}
    (h : reported? r.1 = some e) : r = (.error (.reported e), r.2) :=
  Prod.ext (reported?_eq_some_iff.1 h) rfl

end Outcome

/-- The cause is that dimensions do not fit. -/
def Cause.isDimensionMismatch : Cause → Bool
  | dimensionMismatch _ => true
  | _ => false

/-! ## Operators -/

theorem Value.operand_eq_matrix {v : Value} {m : Matrix Float} (h : v.operand = .matrix m) :
    v = .matrix m := by
  cases v with
  | matrix n =>
    cases h
    rfl
  | number x unit => cases h
  | boolean b => cases h

namespace BinaryOp

/-- What an operator can do with its operands. -/
inductive Yields (left right : Value) : Except Failure Value → Prop where
  | number (x : Float) : Yields left right (.ok (plain x))
  | truth (b : Bool) : Yields left right (.ok (.boolean b))
  /-- A matrix and a number. -/
  | map {m : Matrix Float} (f : Float → Float) (h : left = .matrix m ∨ right = .matrix m) :
      Yields left right (.ok (.matrix (m.map f)))
  | entrywise {a b : Matrix Float} (op : BinaryOp) (f : Float → Float → Float) (hl : left = .matrix a)
      (hr : right = .matrix b) : Yields left right (entrywise op f a b)
  | product {a b : Matrix Float} (hl : left = .matrix a) (hr : right = .matrix b) :
      Yields left right (matrixProduct a b)
  | power {a : Matrix Float} (hl : left = .matrix a) (y : Float) : Yields left right (matrixPower a y)
  | refused (c : Cause) (hc : c.isDimensionMismatch = false) :
      Yields left right (.error (.ofCause c))
  | mishap (c : Mishap) : Yields left right (.error (.mishap c))

variable {left right : Value}

theorem unsupported_yields (op : BinaryOp) : Yields left right (.error (op.unsupported left right)) :=
  .refused _ rfl

theorem numberPower_yields (x y : Float) : Yields left right (numberPower x y) := by
  unfold numberPower
  split
  · exact .number _
  · exact .refused _ rfl
  · exact .refused _ rfl

/-- Two numbers. -/
theorem arithmetic_yields_numbers (op : BinaryOp) {x y : Float} (hl : left.operand = .scalar x)
    (hr : right.operand = .scalar y) : Yields left right (arithmetic op left right) := by
  cases op with
  | add | sub | mul =>
    simp only [arithmetic, hl, hr]
    exact .number _
  | div =>
    simp only [arithmetic, hl, hr]
    split
    · exact .refused _ rfl
    · exact .number _
  | rem =>
    simp only [arithmetic, hl, hr]
    split
    · exact .refused _ rfl
    · split
      · exact .number _
      · exact .mishap _
  | pow =>
    simp only [arithmetic, hl, hr]
    exact numberPower_yields x y
  | _ => exact unsupported_yields _

theorem arithmetic_yields (op : BinaryOp) (left right : Value) :
    Yields left right (arithmetic op left right) := by
  rcases hl : left.operand with x | a <;> rcases hr : right.operand with y | b
  · exact arithmetic_yields_numbers op hl hr
  · -- A number and a matrix.
    have hmatrix := Value.operand_eq_matrix hr
    cases op with
    | add | sub | mul =>
      simp only [arithmetic, hl, hr]
      exact .map _ (.inr hmatrix)
    | _ =>
      simp only [arithmetic, hl, hr]
      exact unsupported_yields _
  · -- A matrix and a number.
    have hmatrix := Value.operand_eq_matrix hl
    cases op with
    | add | sub | mul =>
      simp only [arithmetic, hl, hr]
      exact .map _ (.inl hmatrix)
    | pow =>
      simp only [arithmetic, hl, hr]
      exact .power hmatrix y
    | _ =>
      simp only [arithmetic, hl, hr]
      exact unsupported_yields _
  · -- Two matrices.
    have hleft := Value.operand_eq_matrix hl
    have hright := Value.operand_eq_matrix hr
    cases op with
    | add | sub =>
      simp only [arithmetic, hl, hr]
      exact .entrywise _ _ hleft hright
    | mul =>
      simp only [arithmetic, hl, hr]
      exact .product hleft hright
    | _ =>
      simp only [arithmetic, hl, hr]
      exact unsupported_yields _

/-- Every operator does one of these things. -/
theorem apply_yields (op : BinaryOp) (left right : Value) :
    Yields left right (op.apply left right) := by
  cases op with
  | add | sub | mul | div | rem | pow => exact arithmetic_yields _ left right
  | lt | le | gt | ge =>
    unfold apply comparison
    dsimp only
    split
    · exact .truth _
    · exact unsupported_yields _
  | and | or | bitAnd | bitOr =>
    unfold apply logic
    dsimp only
    split
    · exact .truth _
    · exact unsupported_yields _
  | eq | ne => exact .truth _

end BinaryOp

end Reckon
