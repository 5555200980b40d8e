import Reckon.Value.Builtin

/-!
# Operations without a result

Arithmetic that cannot give a result mostly reports an error.  Three operations do not: the remainder
of an infinity, and a product or a power of matrices one of whose sums of products has no value.  They
break off instead (`BinaryOp.apply_mishap_iff`).  No sign before an operand and no native function ever
does.
-/

namespace Reckon

theorem bind_eq_error_iff {α β ε : Type} {x : Except ε α} {f : α → Except ε β} {e : ε} :
    (x >>= f) = .error e ↔ x = .error e ∨ ∃ a, x = .ok a ∧ f a = .error e := by
  cases x with
  | error e' =>
    constructor
    · intro h
      cases h
      exact .inl rfl
    · rintro (h | ⟨a, h, -⟩)
      · cases h
        rfl
      · cases h
  | ok a =>
    constructor
    · intro h
      exact .inr ⟨a, rfl, h⟩
    · rintro (h | ⟨b, h, hf⟩)
      · cases h
      · cases h
        exact hf

/-- A list is worked through up to its first fault. -/
theorem mapM_eq_error_iff {α β ε : Type} {f : α → Except ε β} {xs : List α} {e : ε} :
    xs.mapM f = .error e ↔ ∃ done x rest, xs = done ++ x :: rest ∧
      (∀ d ∈ done, ∃ y, f d = .ok y) ∧ f x = .error e := by
  induction xs with
  | nil =>
    constructor
    · intro h
      cases h
    · rintro ⟨done, x, rest, h, -⟩
      exact absurd h.symm (by simp)
  | cons x xs ih =>
    have hrest : ∀ y, (xs.mapM f >>= fun ys => pure (y :: ys)) = .error e ↔ xs.mapM f = .error e := by
      intro y
      rw [bind_eq_error_iff]
      exact ⟨fun h => h.resolve_right (by rintro ⟨ys, -, ⟨⟩⟩), .inl⟩
    rw [List.mapM_cons, bind_eq_error_iff]
    simp only [hrest, ih]
    constructor
    · rintro (hx | ⟨y, hy, done, z, rest, rfl, hok, hz⟩)
      · exact ⟨[], x, xs, rfl, by simp, hx⟩
      · exact ⟨x :: done, z, rest, rfl, List.forall_mem_cons.2 ⟨⟨y, hy⟩, hok⟩, hz⟩
    · rintro ⟨done, z, rest, h, hok, hz⟩
      cases done with
      | nil =>
        cases h
        exact .inl hz
      | cons d done =>
        cases h
        obtain ⟨⟨y, hy⟩, hok⟩ := List.forall_mem_cons.1 hok
        exact .inr ⟨y, hy, done, z, rest, rfl, hok, hz⟩

/-- A list is worked through to its end if nothing in it is at fault. -/
theorem mapM_eq_ok_iff {α β ε : Type} {f : α → Except ε β} {xs : List α} :
    (∃ ys, xs.mapM f = .ok ys) ↔ ∀ x ∈ xs, ∃ y, f x = .ok y := by
  constructor
  · rintro ⟨ys, h⟩ x hx
    obtain ⟨done, rest, rfl⟩ := List.append_of_mem hx
    rw [List.mapM_append] at h
    cases hd : done.mapM f with
    | error e => rw [hd] at h; cases h
    | ok ds =>
      cases hx : f x with
      | error e => rw [hd, List.mapM_cons, hx] at h; cases h
      | ok y => exact ⟨y, rfl⟩
  · intro h
    cases hxs : xs.mapM f with
    | ok ys => exact ⟨ys, rfl⟩
    | error e =>
      obtain ⟨done, x, rest, rfl, -, hx⟩ := mapM_eq_error_iff.1 hxs
      obtain ⟨y, hy⟩ := h x (by simp)
      rw [hx] at hy
      cases hy

theorem mapError_eq_ok_iff {α ε δ : Type} {f : ε → δ} {x : Except ε α} {a : α} :
    x.mapError f = .ok a ↔ x = .ok a := by
  cases x with
  | ok b =>
    show Except.ok b = .ok a ↔ _
    rw [Except.ok.injEq, Except.ok.injEq]
  | error e =>
    constructor
    · intro h
      cases h
    · intro h
      cases h

theorem mapError_eq_error_iff {α ε δ : Type} {f : ε → δ} {x : Except ε α} {d : δ} :
    x.mapError f = .error d ↔ ∃ e, x = .error e ∧ f e = d := by
  cases x with
  | ok b =>
    constructor
    · intro h
      cases h
    · rintro ⟨e, ⟨⟩, -⟩
  | error e =>
    constructor
    · intro h
      exact ⟨e, rfl, Except.error.inj h⟩
    · rintro ⟨e, ⟨⟩, rfl⟩
      rfl

/-! ## Products and powers of matrices -/

namespace Matrix

open Number (exactSum SumFault)

/-- The sum of the products of a row and a column has a value. -/
def Summable (row col : List Float) : Prop :=
  ∃ x, exactSum (List.zipWith (· * ·) row col) = .ok x

/-- Some row and column of a product, the first ones whose sum has no value, row by row. -/
def SumFails (a b : Matrix Float) (fault : SumFault) : Prop :=
  a.colCount = b.rowCount ∧ ∃ rows row rows' cols col cols',
    a.rows = rows ++ row :: rows' ∧ columns b.rows = cols ++ col :: cols' ∧
    (∀ r ∈ rows, ∀ c ∈ columns b.rows, Summable r c) ∧ (∀ c ∈ cols, Summable row c) ∧
    exactSum (List.zipWith (· * ·) row col) = .error fault

theorem dot_eq_ok_iff {row col : List Float} :
    (∃ x, dot exactSum row col = .ok x) ↔ Summable row col :=
  exists_congr fun _ => mapError_eq_ok_iff

theorem dot_eq_error_iff {row col : List Float} {fault : SumFault} :
    dot exactSum row col = .error (.sum fault) ↔
      exactSum (List.zipWith (· * ·) row col) = .error fault := by
  unfold dot
  rw [mapError_eq_error_iff]
  simp

/-- What is done with the entries of a product does not fail by itself. -/
theorem mul_eq_sum_iff_mapM {a b : Matrix Float} {fault : SumFault} :
    a.mul exactSum b = .error (.sum fault) ↔ a.colCount = b.rowCount ∧
      (a.rows.mapM fun row => (columns b.rows).mapM (dot exactSum row)) = .error (.sum fault) := by
  unfold mul
  by_cases hd : a.colCount = b.rowCount
  · rw [if_pos hd]
    simp only [hd, true_and]
    rw [bind_eq_error_iff]
    refine ⟨fun h => h.resolve_right ?_, .inl⟩
    rintro ⟨rows, -, h⟩
    split at h <;> cases h
  · simp [hd]

/-- A product breaks off at the first sum without a value. -/
theorem mul_eq_sum_iff {a b : Matrix Float} {fault : SumFault} :
    a.mul exactSum b = .error (.sum fault) ↔ a.SumFails b fault := by
  rw [mul_eq_sum_iff_mapM, mapM_eq_error_iff]
  refine and_congr_right fun _ => ?_
  constructor
  · rintro ⟨rows, row, rows', hrows, hok, hrow⟩
    obtain ⟨cols, col, cols', hcols, hcok, hcol⟩ := mapM_eq_error_iff.1 hrow
    exact ⟨rows, row, rows', cols, col, cols', hrows, hcols,
      fun r hr c hc => dot_eq_ok_iff.1 (mapM_eq_ok_iff.1 (hok r hr) c hc),
      fun c hc => dot_eq_ok_iff.1 (hcok c hc), dot_eq_error_iff.1 hcol⟩
  · rintro ⟨rows, row, rows', cols, col, cols', hrows, hcols, hok, hcok, hcol⟩
    refine ⟨rows, row, rows', hrows,
      fun r hr => mapM_eq_ok_iff.2 fun c hc => dot_eq_ok_iff.2 (hok r hr c hc), ?_⟩
    exact mapM_eq_error_iff.2 ⟨cols, col, cols', hcols, fun c hc => dot_eq_ok_iff.2 (hcok c hc),
      dot_eq_error_iff.2 hcol⟩

/-- Multiplying again and again breaks off at the first product that does. -/
theorem mulTimes_eq_error_iff {base acc : Matrix Float} {n : Nat} {e : Fault SumFault} :
    mulTimes exactSum base n acc = .error e ↔
      ∃ k < n, ∃ power, mulTimes exactSum base k acc = .ok power ∧
        power.mul exactSum base = .error e := by
  -- The accumulator is what changes from one product to the next, so `k` counts from there.
  induction n generalizing acc with
  | zero =>
    constructor
    · intro h
      cases h
    · rintro ⟨k, hk, -⟩
      omega
  | succ n ih =>
    rw [mulTimes]
    cases hm : acc.mul exactSum base with
    | error e' =>
      constructor
      · intro h
        cases h
        exact ⟨0, Nat.succ_pos n, acc, rfl, hm⟩
      · rintro ⟨k, hk, power, hp, he⟩
        cases k with
        | zero =>
          cases hp
          exact hm.symm.trans he
        | succ k =>
          rw [mulTimes, hm] at hp
          cases hp
    | ok next =>
      simp only
      rw [ih]
      constructor
      · rintro ⟨k, hk, power, hp, he⟩
        exact ⟨k + 1, by omega, power, by rw [mulTimes, hm]; exact hp, he⟩
      · rintro ⟨k, hk, power, hp, he⟩
        cases k with
        | zero =>
          cases hp
          rw [hm] at he
          cases he
        | succ k =>
          rw [mulTimes, hm] at hp
          exact ⟨k, by omega, power, hp, he⟩

end Matrix

/-! ## Operators -/

/-- Only the remainder of an infinity by a number is missing. -/
theorem Number.remainder?_eq_none_iff {x y : Float} :
    remainder? x y = none ↔
      (∃ negative, Binary.decode x = .infinite negative) ∧ Binary.decode y ≠ .nan := by
  unfold remainder?
  cases Binary.decode x <;> cases Binary.decode y <;> simp

namespace BinaryOp

open Reckon.Matrix (mulTimes identity)
open Number (exactSum)

/-- Operands for which the operator has no result and reports no error either. -/
inductive Undefined : BinaryOp → Value → Value → Mishap → Prop where
  /-- The remainder of an infinity by anything but zero and what is not a number. -/
  | remainder {left right : Value} {x y : Float} {negative : Bool} (hleft : left.operand = .scalar x)
      (hright : right.operand = .scalar y) (infinite : Binary.decode x = .infinite negative)
      (notZero : (y == 0) = false) (number : Binary.decode y ≠ .nan) :
      Undefined .rem left right .infiniteRemainder
  /-- A product of matrices with a sum that has no value. -/
  | product {left right : Value} {a b : Matrix Float} {fault : Number.SumFault}
      (hleft : left.operand = .matrix a) (hright : right.operand = .matrix b)
      (fails : a.SumFails b fault) : Undefined .mul left right (.sum fault)
  /-- A power of a matrix with such a product on the way. -/
  | power {left right : Value} {base acc : Matrix Float} {y : Float} {k n : Nat}
      {fault : Number.SumFault} (hleft : left.operand = .matrix base)
      (hright : right.operand = .scalar y) (square : base.isSquare = true)
      (whole : floatToNat? y = some n) (below : k < n)
      (before : mulTimes exactSum base k (identity base.rowCount) = .ok acc)
      (fails : acc.SumFails base fault) : Undefined .pow left right (.sum fault)

theorem Undefined.ne_tooDeep {op : BinaryOp} {x y : Value} {c : Mishap} (h : op.Undefined x y c) :
    c ≠ .tooDeep := by
  cases h <;> simp

theorem unsupported_ne_mishap (op : BinaryOp) (left right : Value) (c : Mishap) :
    op.unsupported left right ≠ .mishap c := by
  rintro ⟨⟩

theorem entrywise_ne_mishap (op : BinaryOp) (f : Float → Float → Float) (a b : Matrix Float)
    (c : Mishap) : entrywise op f a b ≠ .error (.mishap c) := by
  unfold entrywise
  split <;> rintro ⟨⟩

theorem comparison_ne_mishap (op : BinaryOp) (test : Float → Float → Bool) (left right : Value)
    (c : Mishap) : comparison op test left right ≠ .error (.mishap c) := by
  unfold comparison
  split <;> rintro ⟨⟩

theorem logic_ne_mishap (op : BinaryOp) (connective : Bool → Bool → Bool) (left right : Value)
    (c : Mishap) : logic op connective left right ≠ .error (.mishap c) := by
  unfold logic
  split <;> rintro ⟨⟩

theorem numberPower_ne_mishap (x y : Float) (c : Mishap) :
    numberPower x y ≠ .error (.mishap c) := by
  unfold numberPower
  split <;> rintro ⟨⟩

theorem matrixFailure_eq_mishap_iff {left right : Dims} {exponent : Float}
    {fault : Matrix.Fault Number.SumFault} {c : Mishap} :
    matrixFailure left right exponent fault = .mishap c ↔ ∃ f, fault = .sum f ∧ c = .sum f := by
  cases fault <;> simp [matrixFailure, Failure.ofCause, eq_comm]

/-- What is done with the outcome of a product or a power passes on the missing sums. -/
theorem matrixResult_mishap_iff {left right : Dims} {exponent : Float}
    {x : Except (Matrix.Fault Number.SumFault) (Matrix Float)} {c : Mishap} :
    (x.mapError (matrixFailure left right exponent)).map Value.matrix = .error (.mishap c) ↔
      ∃ fault, c = .sum fault ∧ x = .error (.sum fault) := by
  cases x with
  | ok m =>
    constructor
    · intro h
      cases h
    · rintro ⟨fault, -, ⟨⟩⟩
  | error e =>
    show Except.error (matrixFailure left right exponent e) = .error (.mishap c) ↔ _
    rw [Except.error.injEq, matrixFailure_eq_mishap_iff]
    refine exists_congr fun fault => ?_
    rw [and_comm, Except.error.injEq]

theorem matrixProduct_mishap_iff {a b : Matrix Float} {c : Mishap} :
    matrixProduct a b = .error (.mishap c) ↔ ∃ fault, c = .sum fault ∧ a.SumFails b fault := by
  unfold matrixProduct
  rw [matrixResult_mishap_iff]
  simp only [Matrix.mul_eq_sum_iff]

theorem matrixPower_mishap_iff {base : Matrix Float} {y : Float} {c : Mishap} :
    matrixPower base y = .error (.mishap c) ↔ ∃ fault, c = .sum fault ∧ base.isSquare = true ∧
      ∃ n k acc, floatToNat? y = some n ∧ k < n ∧
        mulTimes exactSum base k (identity base.rowCount) = .ok acc ∧ acc.SumFails base fault := by
  unfold matrixPower
  rw [matrixResult_mishap_iff]
  refine exists_congr fun fault => and_congr_right fun _ => ?_
  unfold Matrix.power
  by_cases hs : base.isSquare = true
  · rw [if_pos hs]
    cases hn : Scalar.toNat? y with
    | none =>
      constructor
      · intro h
        cases h
      · rintro ⟨-, n, k, acc, hn', -⟩
        cases hn.symm.trans hn'
    | some n =>
      simp only [Matrix.mulTimes_eq_error_iff, Matrix.mul_eq_sum_iff]
      constructor
      · rintro ⟨k, hk, acc, hacc, hf⟩
        exact ⟨hs, n, k, acc, hn, hk, hacc, hf⟩
      · rintro ⟨-, n', k, acc, hn', hk, hacc, hf⟩
        cases hn.symm.trans hn'
        exact ⟨k, hk, acc, hacc, hf⟩
  · simp [hs]

theorem undefined_of_arithmetic {op : BinaryOp} {left right : Value} {c : Mishap}
    (h : arithmetic op left right = .error (.mishap c)) : Undefined op left right c := by
  have hno : ∀ {op : BinaryOp}, (.error (op.unsupported left right) : Except Failure Value) =
      .error (.mishap c) → False :=
    fun h => unsupported_ne_mishap _ left right c (Except.error.inj h)
  -- Two numbers, a number and a matrix, a matrix and a number, two matrices.
  rcases hl : left.operand with x | a <;> rcases hr : right.operand with y | b
  · cases op with
    | rem =>
      simp only [arithmetic, hl, hr] at h
      split at h
      · cases h
      · rename_i hzero
        split at h
        · cases h
        · rename_i hnone
          cases h
          obtain ⟨⟨negative, hinf⟩, hnan⟩ := Number.remainder?_eq_none_iff.1 hnone
          exact .remainder hl hr hinf (Bool.eq_false_iff.2 hzero) hnan
    | div =>
      simp only [arithmetic, hl, hr] at h
      split at h <;> cases h
    | pow =>
      simp only [arithmetic, hl, hr] at h
      exact absurd h (numberPower_ne_mishap x y c)
    | add | sub | mul => simp only [arithmetic, hl, hr] at h; cases h
    | _ => simp only [arithmetic] at h; exact (hno h).elim
  · cases op with
    | add | sub | mul => simp only [arithmetic, hl, hr] at h; cases h
    | _ => simp only [arithmetic, hl, hr] at h; exact (hno h).elim
  · cases op with
    | pow =>
      simp only [arithmetic, hl, hr] at h
      obtain ⟨fault, rfl, hs, n, k, acc, hn, hk, hacc, hf⟩ := matrixPower_mishap_iff.1 h
      exact .power hl hr hs hn hk hacc hf
    | add | sub | mul => simp only [arithmetic, hl, hr] at h; cases h
    | _ => simp only [arithmetic, hl, hr] at h; exact (hno h).elim
  · cases op with
    | mul =>
      simp only [arithmetic, hl, hr] at h
      obtain ⟨fault, rfl, hf⟩ := matrixProduct_mishap_iff.1 h
      exact .product hl hr hf
    | add | sub =>
      simp only [arithmetic, hl, hr] at h
      exact absurd h (entrywise_ne_mishap _ _ a b c)
    | _ => simp only [arithmetic, hl, hr] at h; exact (hno h).elim

/-- An operator breaks off exactly where it is undefined. -/
theorem apply_mishap_iff {op : BinaryOp} {left right : Value} {c : Mishap} :
    op.apply left right = .error (.mishap c) ↔ Undefined op left right c := by
  constructor
  · intro h
    cases op with
    | add | sub | mul | div | rem | pow => exact undefined_of_arithmetic h
    | lt | le | gt | ge => exact absurd h (comparison_ne_mishap _ _ left right c)
    | and | or | bitAnd | bitOr => exact absurd h (logic_ne_mishap _ _ left right c)
    | eq | ne => cases h
  · intro h
    cases h with
    | remainder hleft hright hinf hzero hnan =>
      have hnone := Number.remainder?_eq_none_iff.2 ⟨⟨_, hinf⟩, hnan⟩
      simp only [apply, arithmetic, hleft, hright, hzero, hnone]
      rfl
    | product hleft hright hf =>
      simp only [apply, arithmetic, hleft, hright]
      exact matrixProduct_mishap_iff.2 ⟨_, rfl, hf⟩
    | power hleft hright hs hn hk hacc hf =>
      simp only [apply, arithmetic, hleft, hright]
      exact matrixPower_mishap_iff.2 ⟨_, rfl, hs, _, _, _, hn, hk, hacc, hf⟩

end BinaryOp

/-! ## Signs and native functions -/

/-- No sign breaks off: the product that a minus is has a number on one side. -/
theorem UnaryOp.apply_ne_mishap (op : UnaryOp) (v : Value) (c : Mishap) :
    op.apply v ≠ .error (.mishap c) := by
  intro h
  cases op with
  | plus => cases h
  | minus =>
    have hu : BinaryOp.Undefined .mul v (BinaryOp.plain (-1.0)) c := BinaryOp.apply_mishap_iff.1 h
    cases hu with
    | product _ hright _ => cases hright
  | not => cases v <;> cases h

namespace Builtin

theorem matrixArgument_ne_mishap (function : String) (v : Value) (c : Mishap) :
    matrixArgument function v ≠ .error (.mishap c) := by
  cases v <;> rintro ⟨⟩

theorem numberArgument_ne_mishap (function : String) (v : Value) (c : Mishap) :
    numberArgument function v ≠ .error (.mishap c) := by
  unfold numberArgument
  split <;> rintro ⟨⟩

theorem shaped_ne_mishap (m : Option (Matrix Float)) (c : Mishap) :
    shaped m ≠ .error (.mishap c) := by
  cases m <;> rintro ⟨⟩

theorem bind_ne_mishap {α β : Type} {x : Except Failure α} {f : α → Except Failure β} {c : Mishap}
    (hx : x ≠ .error (.mishap c)) (hf : ∀ a, f a ≠ .error (.mishap c)) :
    (x >>= f) ≠ .error (.mishap c) := by
  intro h
  rcases bind_eq_error_iff.1 h with h | ⟨a, -, h⟩
  · exact hx h
  · exact hf a h

/-- No native function breaks off. -/
theorem apply_ne_mishap (b : Builtin) (v : Value) (c : Mishap) :
    b.apply v ≠ .error (.mishap c) := by
  cases b with
  | transpose | trans | rref =>
    exact bind_ne_mishap (matrixArgument_ne_mishap _ v c) fun _ => shaped_ne_mishap _ c
  | det | determinant =>
    refine bind_ne_mishap (matrixArgument_ne_mishap _ v c) fun m => ?_
    split <;> rintro ⟨⟩
  | sqrt =>
    refine bind_ne_mishap (numberArgument_ne_mishap _ v c) fun x => ?_
    split <;> rintro ⟨⟩

end Builtin

end Reckon
