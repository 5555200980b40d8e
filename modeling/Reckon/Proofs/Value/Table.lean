import Reckon.Proofs.Number.Zero
import Reckon.Proofs.Value.Shape

/-!
# The table of operators

Which operands an operator takes can be said without its code: which kinds it is not for (`Unsupported`),
which matrices do not go together (`Mismatched`), and which numbers cannot be divided by
(`DividesByZero`).  Every operator keeps to that (`BinaryOp.apply_table`).  It complains of the kinds, of
the dimensions or of the zero exactly where the table says so, and otherwise gives a value of the kind that
the table says (`resultKind`), except that a power may be out of range, and that a remainder or a sum of
products may not exist (`Undefined`).

Arithmetic, order and equality do not see whether an operand is a truth value or the number that it counts
as.  Only a complaint about kinds does, since it names them.
-/

namespace Reckon

/-- The unit that a value carries. -/
def Value.unit? : Value → Option LengthUnit
  | number _ unit => unit
  | _ => none

/-- The value itself or, instead of a truth value, the number 0 or 1 that it counts as. -/
inductive Value.CountsAs : Value → Value → Prop where
  | refl (v : Value) : CountsAs v v
  | bit (b : Bool) (unit : Option LengthUnit) : CountsAs (boolean b) (number (if b then 1.0 else 0.0) unit)

theorem Value.CountsAs.operand_eq {v w : Value} (h : v.CountsAs w) : w.operand = v.operand := by
  cases h with
  | refl => rfl
  | bit => rfl

theorem Value.exists_number {v : Value} (h : v.kind ≠ .matrix) :
    ∃ x, v.operand = .scalar x ∧ v.number? = some x := by
  cases v with
  | number x unit => exact ⟨x, rfl, rfl⟩
  | boolean b => exact ⟨ofBit b, rfl, rfl⟩
  | matrix m => exact absurd rfl h

theorem Value.number?_congr {v w : Value} (h : v.operand = w.operand) : v.number? = w.number? := by
  have hoperand : ∀ u : Value, u.number? = match u.operand with
      | .scalar x => some x
      | .matrix _ => none := by
    intro u
    cases u <;> rfl
  rw [hoperand, hoperand, h]

theorem Value.kind_matrix_ne (m : Matrix Float) : (Value.matrix m).kind ≠ .boolean := by
  rintro ⟨⟩

theorem Value.exists_matrix {v : Value} (h : v.kind = .matrix) : ∃ m, v = .matrix m := by
  cases v with
  | matrix m => exact ⟨m, rfl⟩
  | number x unit => cases h
  | boolean b => cases h

namespace BinaryOp

/-- A connective of truth values. -/
def isLogic : BinaryOp → Bool
  | and | or | bitAnd | bitOr => true
  | _ => false

/-- The operator is not for operands of these kinds. -/
def Unsupported (op : BinaryOp) (left right : Value) : Prop :=
  match op with
  | div | rem | lt | le | gt | ge => left.kind = .matrix ∨ right.kind = .matrix
  | pow => right.kind = .matrix
  | and | or | bitAnd | bitOr => left.kind ≠ .boolean ∨ right.kind ≠ .boolean
  | add | sub | mul | eq | ne => False

/-- The operator is for these kinds, but not for matrices of these dimensions. -/
def Mismatched (op : BinaryOp) (left right : Value) : Prop :=
  match op with
  | add | sub => ∃ a b, left = .matrix a ∧ right = .matrix b ∧ a.dims ≠ b.dims
  | mul => ∃ a b, left = .matrix a ∧ right = .matrix b ∧ a.colCount ≠ b.rowCount
  | pow => ∃ a, left = .matrix a ∧ right.kind ≠ .matrix ∧ (a.rowCount : Int) ≠ a.colCount
  | _ => False

/-- A quotient or a remainder of numbers of which the second is a zero. -/
def DividesByZero (op : BinaryOp) (left right : Value) : Prop :=
  (op = div ∨ op = rem) ∧ left.kind ≠ .matrix ∧
    (right.number? = some 0.0 ∨ right.number? = some (-0.0))

/-- The kind of value that the operator gives, if it gives one. -/
def resultKind (op : BinaryOp) (left right : Value) : ValueKind :=
  match op with
  | add | sub | mul => if left.kind = .matrix ∨ right.kind = .matrix then .matrix else .number
  | pow => if left.kind = .matrix then .matrix else .number
  | div | rem => .number
  | lt | le | gt | ge | eq | ne | and | or | bitAnd | bitOr => .boolean

variable {op : BinaryOp} {left right left' right' : Value}

/-! ## Complaints -/

theorem comparison_of_matrix (test : Float → Float → Bool)
    (h : left.kind = .matrix ∨ right.kind = .matrix) :
    comparison op test left right = .error (op.unsupported left right) := by
  unfold comparison
  rcases h with h | h
  · rw [Value.number?_eq_none_iff.2 h]
  · rw [Value.number?_eq_none_iff.2 h]
    cases left.number? <;> rfl

theorem logic_of_kind (connective : Bool → Bool → Bool)
    (h : left.kind ≠ .boolean ∨ right.kind ≠ .boolean) :
    logic op connective left right = .error (op.unsupported left right) := by
  cases left <;> cases right <;> simp_all [logic, Value.kind]

theorem apply_of_unsupported (h : op.Unsupported left right) :
    op.apply left right = .error (op.unsupported left right) := by
  cases op with
  | add | sub | mul | eq | ne => exact h.elim
  | lt | le | gt | ge => exact comparison_of_matrix _ h
  | and | or | bitAnd | bitOr => exact logic_of_kind _ h
  | div | rem =>
    rcases h with h | h
    · obtain ⟨a, rfl⟩ := Value.exists_matrix h
      rfl
    · obtain ⟨b, rfl⟩ := Value.exists_matrix h
      cases left <;> rfl
  | pow =>
    obtain ⟨b, rfl⟩ := Value.exists_matrix h
    cases left <;> rfl

theorem apply_of_mismatched (h : op.Mismatched left right) :
    ∃ fault, op.apply left right = .error (.ofCause (.dimensionMismatch fault)) := by
  cases op with
  | add | sub =>
    obtain ⟨a, b, rfl, rfl, hdims⟩ := h
    have hnone : ∀ f : Float → Float → Float, a.zipWith? f b = none := fun _ => if_neg hdims
    simp only [apply, arithmetic, Value.operand, entrywise, hnone]
    exact ⟨_, rfl⟩
  | mul =>
    obtain ⟨a, b, rfl, rfl, hinner⟩ := h
    have herror : a.mul Number.exactSum b = .error .inner := if_neg hinner
    simp only [apply, arithmetic, Value.operand, matrixProduct, herror]
    exact ⟨.inner a.dims b.dims, rfl⟩
  | pow =>
    obtain ⟨a, rfl, hright, hsquare⟩ := h
    obtain ⟨y, hy, -⟩ := Value.exists_number hright
    have herror : a.power Number.exactSum y = .error .notSquare :=
      if_neg (by simpa [Matrix.isSquare] using hsquare)
    have hleft : (Value.matrix a).operand = .matrix a := rfl
    simp only [apply, arithmetic, hleft, hy, matrixPower, herror]
    exact ⟨.powerNotSquare, rfl⟩
  | _ => exact h.elim

/-- The second number is a zero if and only if it is equal to zero. -/
theorem dividesByZero_iff {x y : Float} (hop : op = div ∨ op = rem) (hleft : left.number? = some x)
    (hright : right.number? = some y) : op.DividesByZero left right ↔ (y == 0) = true := by
  have hkind : left.kind ≠ .matrix := by
    rw [ne_eq, ← Value.number?_eq_none_iff, hleft]
    exact nofun
  unfold DividesByZero
  rw [hright, Option.some.injEq, Option.some.injEq, beq_zero_iff]
  exact ⟨fun h => h.2.2, fun h => ⟨hop, hkind, h⟩⟩

theorem apply_of_dividesByZero (h : op.DividesByZero left right) :
    op.apply left right = .error (.ofCause (.divisionByZero op.symbol)) := by
  obtain ⟨x, hx, hleft⟩ := Value.exists_number h.2.1
  have hkind : right.kind ≠ .matrix := by
    rw [ne_eq, ← Value.number?_eq_none_iff]
    rcases h.2.2 with h | h <;> rw [h] <;> exact nofun
  obtain ⟨y, hy, hright⟩ := Value.exists_number hkind
  have hzero := (dividesByZero_iff h.1 hleft hright).1 h
  rcases h.1 with rfl | rfl
  · simp only [apply, arithmetic, hx, hy, hzero, if_true]
  · simp only [apply, arithmetic, hx, hy, hzero, if_true]

/-! ## Results -/

/-- A value of the kind that the table says, without a unit; or a power out of range, or no result at
all. -/
abbrev Expected (op : BinaryOp) (left right : Value) : Except Failure Value → Prop :=
  Outcome (fun v => v.kind = op.resultKind left right ∧ v.unit? = none)
    fun e => (op = pow ∧ ∃ fault, e = .ofCause (.evaluation fault)) ∨ ∃ c, e = .mishap c

theorem numberPower_expected {x y : Float} (hl : left.kind ≠ .matrix) :
    Expected pow left right (numberPower x y) := by
  unfold numberPower
  split
  · exact ⟨(if_neg hl).symm, rfl⟩
  · exact .inl ⟨rfl, _, rfl⟩
  · exact .inl ⟨rfl, _, rfl⟩

theorem entrywise_expected {a b : Matrix Float} (f : Float → Float → Float) (ha : a.Shaped)
    (hdims : a.dims = b.dims) (hkind : op.resultKind (.matrix a) (.matrix b) = .matrix) :
    Expected op (.matrix a) (.matrix b) (entrywise op f a b) := by
  obtain ⟨m, hm, -⟩ := entrywise_dims op f ha hdims
  rw [hm]
  exact ⟨hkind.symm, rfl⟩

theorem matrixPower_expected {a : Matrix Float} {y : Float} (ha : a.Shaped)
    (hsquare : a.isSquare = true) : Expected pow (.matrix a) right (matrixPower a y) := by
  cases hn : floatToNat? y with
  | some n =>
    rcases matrixPower_dims ha hsquare hn with ⟨m, hm, -⟩ | ⟨fault, hfault⟩
    · rw [hm]
      exact ⟨rfl, rfl⟩
    · rw [hfault]
      exact .inr ⟨_, rfl⟩
  | none =>
    have hn' : Scalar.toNat? y = none := hn
    have hexponent : a.power Number.exactSum y = .error .exponent := by
      unfold Matrix.power
      rw [if_pos hsquare, hn']
    unfold matrixPower
    rw [hexponent]
    exact .inl ⟨rfl, _, rfl⟩

/-- Two numbers. -/
theorem apply_expected_numbers (hl : left.kind ≠ .matrix) (hr : right.kind ≠ .matrix)
    (hkinds : ¬ op.Unsupported left right) (hzero : ¬ op.DividesByZero left right) :
    Expected op left right (op.apply left right) := by
  obtain ⟨x, hx, hx'⟩ := Value.exists_number hl
  obtain ⟨y, hy, hy'⟩ := Value.exists_number hr
  cases op with
  | add | sub | mul =>
    simp only [apply, arithmetic, hx, hy]
    exact ⟨(if_neg (not_or.2 ⟨hl, hr⟩)).symm, rfl⟩
  | div =>
    have hne : ¬ (y == 0) = true := fun h => hzero ((dividesByZero_iff (.inl rfl) hx' hy').2 h)
    simp only [apply, arithmetic, hx, hy]
    rw [if_neg hne]
    exact ⟨rfl, rfl⟩
  | rem =>
    have hne : ¬ (y == 0) = true := fun h => hzero ((dividesByZero_iff (.inr rfl) hx' hy').2 h)
    simp only [apply, arithmetic, hx, hy]
    rw [if_neg hne]
    split
    · exact ⟨rfl, rfl⟩
    · exact .inr ⟨_, rfl⟩
  | pow =>
    simp only [apply, arithmetic, hx, hy]
    exact numberPower_expected hl
  | lt | le | gt | ge =>
    simp only [apply, comparison, hx', hy']
    exact ⟨rfl, rfl⟩
  | eq | ne => exact ⟨rfl, rfl⟩
  | and | or | bitAnd | bitOr =>
    obtain ⟨h, h'⟩ := not_or.1 hkinds
    cases left <;> cases right <;> simp_all [Value.kind, apply, logic, resultKind, Value.unit?]

/-- Two matrices. -/
theorem apply_expected_matrices {a b : Matrix Float} (ha : a.Shaped) (hb : b.Shaped)
    (hkinds : ¬ op.Unsupported (.matrix a) (.matrix b))
    (hdims : ¬ op.Mismatched (.matrix a) (.matrix b)) :
    Expected op (.matrix a) (.matrix b) (op.apply (.matrix a) (.matrix b)) := by
  cases op with
  | add | sub =>
    have heq : a.dims = b.dims := Decidable.byContradiction fun h => hdims ⟨a, b, rfl, rfl, h⟩
    exact entrywise_expected _ ha heq rfl
  | mul =>
    have hinner : a.colCount = b.rowCount :=
      Decidable.byContradiction fun h => hdims ⟨a, b, rfl, rfl, h⟩
    simp only [apply, arithmetic, Value.operand]
    rcases matrixProduct_dims hb hinner with ⟨m, hm, -⟩ | ⟨fault, hfault⟩
    · rw [hm]
      exact ⟨rfl, rfl⟩
    · rw [hfault]
      exact .inr ⟨_, rfl⟩
  | eq | ne => exact ⟨rfl, rfl⟩
  | pow => exact absurd rfl hkinds
  | div | rem | lt | le | gt | ge => exact absurd (.inl rfl) hkinds
  | and | or | bitAnd | bitOr => exact absurd (.inl (Value.kind_matrix_ne a)) hkinds

/-- A matrix and a number. -/
theorem apply_expected_matrix_number {a : Matrix Float} (ha : a.Shaped) (hr : right.kind ≠ .matrix)
    (hkinds : ¬ op.Unsupported (.matrix a) right) (hdims : ¬ op.Mismatched (.matrix a) right) :
    Expected op (.matrix a) right (op.apply (.matrix a) right) := by
  obtain ⟨y, hy, -⟩ := Value.exists_number hr
  have ha' : (Value.matrix a).operand = .matrix a := rfl
  cases op with
  | add | sub | mul =>
    simp only [apply, arithmetic, ha', hy]
    exact ⟨rfl, rfl⟩
  | pow =>
    have hsquare : a.isSquare = true :=
      Decidable.byContradiction fun h => hdims ⟨a, rfl, hr, by simpa [Matrix.isSquare] using h⟩
    simp only [apply, arithmetic, ha', hy]
    exact matrixPower_expected ha hsquare
  | eq | ne => exact ⟨rfl, rfl⟩
  | div | rem | lt | le | gt | ge => exact absurd (.inl rfl) hkinds
  | and | or | bitAnd | bitOr => exact absurd (.inl (Value.kind_matrix_ne a)) hkinds

/-- A number and a matrix. -/
theorem apply_expected_number_matrix {b : Matrix Float} (hl : left.kind ≠ .matrix)
    (hkinds : ¬ op.Unsupported left (.matrix b)) :
    Expected op left (.matrix b) (op.apply left (.matrix b)) := by
  obtain ⟨x, hx, -⟩ := Value.exists_number hl
  have hb' : (Value.matrix b).operand = .matrix b := rfl
  cases op with
  | add | sub | mul =>
    simp only [apply, arithmetic, hx, hb']
    exact ⟨(if_pos (.inr rfl)).symm, rfl⟩
  | eq | ne => exact ⟨rfl, rfl⟩
  | pow => exact absurd rfl hkinds
  | div | rem | lt | le | gt | ge => exact absurd (.inr rfl) hkinds
  | and | or | bitAnd | bitOr => exact absurd (.inr (Value.kind_matrix_ne b)) hkinds

/-- Operands of which the table has nothing to complain. -/
theorem apply_expected (hleft : left.Shaped) (hright : right.Shaped)
    (hkinds : ¬ op.Unsupported left right) (hdims : ¬ op.Mismatched left right)
    (hzero : ¬ op.DividesByZero left right) : Expected op left right (op.apply left right) := by
  by_cases hl : left.kind = .matrix <;> by_cases hr : right.kind = .matrix
  · obtain ⟨a, rfl⟩ := Value.exists_matrix hl
    obtain ⟨b, rfl⟩ := Value.exists_matrix hr
    exact apply_expected_matrices hleft hright hkinds hdims
  · obtain ⟨a, rfl⟩ := Value.exists_matrix hl
    exact apply_expected_matrix_number hleft hr hkinds hdims
  · obtain ⟨b, rfl⟩ := Value.exists_matrix hr
    exact apply_expected_number_matrix hl hkinds
  · exact apply_expected_numbers hl hr hkinds hzero

/-! ## Truth values -/

/-- Arithmetic, order and equality see only what an operand counts as. -/
theorem apply_congr (hl : left'.operand = left.operand) (hr : right'.operand = right.operand)
    (hlogic : op.isLogic = false) (hkinds : ¬ op.Unsupported left right) :
    op.apply left' right' = op.apply left right := by
  cases op with
  | add | sub | mul =>
    simp only [apply, arithmetic, hl, hr]
    rcases left.operand with x | a <;> rcases right.operand with y | b <;> rfl
  | pow =>
    obtain ⟨y, hy, -⟩ := Value.exists_number hkinds
    simp only [apply, arithmetic, hl, hr, hy]
    rcases left.operand with x | a <;> rfl
  | div | rem =>
    obtain ⟨h, h'⟩ := not_or.1 hkinds
    obtain ⟨x, hx, -⟩ := Value.exists_number h
    obtain ⟨y, hy, -⟩ := Value.exists_number h'
    simp only [apply, arithmetic, hl, hr, hx, hy]
  | lt | le | gt | ge =>
    obtain ⟨h, h'⟩ := not_or.1 hkinds
    obtain ⟨x, -, hx⟩ := Value.exists_number h
    obtain ⟨y, -, hy⟩ := Value.exists_number h'
    simp only [apply, comparison, Value.number?_congr hl, Value.number?_congr hr, hx, hy]
  | eq | ne => simp only [apply, equals, hl, hr]
  | and | or | bitAnd | bitOr => cases hlogic

/-- Where the table has no place for the kinds, it has none for what the operands count as. -/
theorem unsupported_congr (hl : left'.operand = left.operand) (hr : right'.operand = right.operand)
    (hlogic : op.isLogic = false) : op.Unsupported left' right' ↔ op.Unsupported left right := by
  have hkind : ∀ {v w : Value}, v.operand = w.operand → (v.kind = .matrix ↔ w.kind = .matrix) :=
    fun h => by rw [← Value.number?_eq_none_iff, Value.number?_congr h, Value.number?_eq_none_iff]
  cases op with
  | add | sub | mul | eq | ne => exact Iff.rfl
  | pow => exact hkind hr
  | div | rem | lt | le | gt | ge => exact or_congr (hkind hl) (hkind hr)
  | and | or | bitAnd | bitOr => cases hlogic

/-! ## The table -/

/-- One complaint of the table, or none of them. -/
theorem apply_cases (op : BinaryOp) (hleft : left.Shaped) (hright : right.Shaped) :
    (op.Unsupported left right ∧ op.apply left right = .error (op.unsupported left right)) ∨
    (op.Mismatched left right ∧
      ∃ fault, op.apply left right = .error (.ofCause (.dimensionMismatch fault))) ∨
    (op.DividesByZero left right ∧
      op.apply left right = .error (.ofCause (.divisionByZero op.symbol))) ∨
    Expected op left right (op.apply left right) := by
  by_cases hkinds : op.Unsupported left right
  · exact .inl ⟨hkinds, apply_of_unsupported hkinds⟩
  by_cases hdims : op.Mismatched left right
  · exact .inr (.inl ⟨hdims, apply_of_mismatched hdims⟩)
  by_cases hzero : op.DividesByZero left right
  · exact .inr (.inr (.inl ⟨hzero, apply_of_dividesByZero hzero⟩))
  · exact .inr (.inr (.inr (apply_expected hleft hright hkinds hdims hzero)))

/-- A complaint that is neither about a power nor a mishap comes from the table. -/
theorem Expected.ne_ofCause {r : Except Failure Value} {c : Cause} (h : Expected op left right r)
    (hc : ∀ fault, c ≠ .evaluation fault) : r ≠ .error (.ofCause c) := by
  rintro rfl
  rcases h with ⟨-, fault, hfault⟩ | ⟨m, hm⟩
  · cases hfault
    exact hc fault rfl
  · cases hm

theorem unsupportedOperation_iff (hleft : left.Shaped) (hright : right.Shaped) :
    (∃ symbol a b, op.apply left right = .error (.ofCause (.unsupportedOperation symbol a b))) ↔
      op.Unsupported left right := by
  constructor
  · rintro ⟨symbol, a, b, h⟩
    rcases apply_cases op hleft hright with ⟨hkinds, -⟩ | ⟨-, fault, h'⟩ | ⟨-, h'⟩ | hexpected
    · exact hkinds
    · cases h.symm.trans h'
    · cases h.symm.trans h'
    · exact absurd h (hexpected.ne_ofCause nofun)
  · intro h
    exact ⟨_, _, _, apply_of_unsupported h⟩

theorem dimensionMismatch_iff (hleft : left.Shaped) (hright : right.Shaped) :
    (∃ fault, op.apply left right = .error (.ofCause (.dimensionMismatch fault))) ↔
      op.Mismatched left right := by
  constructor
  · rintro ⟨fault, h⟩
    rcases apply_cases op hleft hright with ⟨-, h'⟩ | ⟨hdims, -⟩ | ⟨-, h'⟩ | hexpected
    · cases h.symm.trans h'
    · exact hdims
    · cases h.symm.trans h'
    · exact absurd h (hexpected.ne_ofCause nofun)
  · exact apply_of_mismatched

theorem divisionByZero_iff (hleft : left.Shaped) (hright : right.Shaped) :
    (∃ symbol, op.apply left right = .error (.ofCause (.divisionByZero symbol))) ↔
      op.DividesByZero left right := by
  constructor
  · rintro ⟨symbol, h⟩
    rcases apply_cases op hleft hright with ⟨-, h'⟩ | ⟨-, fault, h'⟩ | ⟨hzero, -⟩ | hexpected
    · cases h.symm.trans h'
    · cases h.symm.trans h'
    · exact hzero
    · exact absurd h (hexpected.ne_ofCause nofun)
  · intro h
    exact ⟨_, apply_of_dividesByZero h⟩

/-- What the outcome is, whatever it is. -/
theorem apply_outcome (op : BinaryOp) (hleft : left.Shaped) (hright : right.Shaped) :
    Outcome (fun v => v.kind = op.resultKind left right ∧ v.unit? = none)
      (fun e => op.Unsupported left right ∨ op.Mismatched left right ∨ op.DividesByZero left right ∨
        (op = pow ∧ ∃ fault, e = .ofCause (.evaluation fault)) ∨
        ∃ c, e = .mishap c ∧ op.Undefined left right c) (op.apply left right) := by
  rcases apply_cases op hleft hright with ⟨h, h'⟩ | ⟨h, fault, h'⟩ | ⟨h, h'⟩ | hexpected
  · rw [h']
    exact .inl h
  · rw [h']
    exact .inr (.inl h)
  · rw [h']
    exact .inr (.inr (.inl h))
  · cases hr : op.apply left right with
    | ok v =>
      rw [hr] at hexpected
      exact hexpected
    | error e =>
      rw [hr] at hexpected
      rcases hexpected with hpow | ⟨c, rfl⟩
      · exact .inr (.inr (.inr (.inl hpow)))
      · exact .inr (.inr (.inr (.inr ⟨c, rfl, apply_mishap_iff.1 hr⟩)))

/-- A truth value given as the number that it counts as. -/
theorem apply_countsAs (hl : left.CountsAs left') (hr : right.CountsAs right')
    (hlogic : op.isLogic = false) :
    op.apply left' right' = op.apply left right ∨
      op.apply left right = .error (op.unsupported left right) ∧
        op.apply left' right' = .error (op.unsupported left' right') := by
  by_cases hkinds : op.Unsupported left right
  · exact .inr ⟨apply_of_unsupported hkinds,
      apply_of_unsupported ((unsupported_congr hl.operand_eq hr.operand_eq hlogic).2 hkinds)⟩
  · exact .inl (apply_congr hl.operand_eq hr.operand_eq hlogic hkinds)

/-- Operators keep to the table.  A truth value may be given as the number that it counts as: the outcome
stays, unless it is the complaint about kinds, which then names the other kind. -/
theorem apply_table (op : BinaryOp) (hleft : left.Shaped) (hright : right.Shaped) :
    ((∃ symbol a b, op.apply left right = .error (.ofCause (.unsupportedOperation symbol a b))) ↔
      op.Unsupported left right) ∧
    ((∃ fault, op.apply left right = .error (.ofCause (.dimensionMismatch fault))) ↔
      op.Mismatched left right) ∧
    ((∃ symbol, op.apply left right = .error (.ofCause (.divisionByZero symbol))) ↔
      op.DividesByZero left right) ∧
    (op = eq ∨ op = ne → ∃ b, op.apply left right = .ok (.boolean b)) ∧
    (∀ v, op.apply left right = .ok v → v.kind = op.resultKind left right ∧ v.unit? = none) ∧
    (∀ e, op.apply left right = .error e →
      op.Unsupported left right ∨ op.Mismatched left right ∨ op.DividesByZero left right ∨
        (op = pow ∧ ∃ fault, e = .ofCause (.evaluation fault)) ∨
        ∃ c, e = .mishap c ∧ op.Undefined left right c) ∧
    (∀ left' right', left.CountsAs left' → right.CountsAs right' → op.isLogic = false →
      op.apply left' right' = op.apply left right ∨
        op.apply left right = .error (op.unsupported left right) ∧
          op.apply left' right' = .error (op.unsupported left' right')) := by
  have houtcome := apply_outcome op hleft hright
  refine ⟨unsupportedOperation_iff hleft hright, dimensionMismatch_iff hleft hright,
    divisionByZero_iff hleft hright, ?_, ?_, ?_, fun left' right' => apply_countsAs⟩
  · rintro (rfl | rfl)
    · exact ⟨_, rfl⟩
    · exact ⟨_, rfl⟩
  · intro v hv
    rw [hv] at houtcome
    exact houtcome
  · intro e he
    rw [he] at houtcome
    exact houtcome

/-- A row has no powers, whether the exponent is a truth value or a number. -/
theorem apply_table_row :
    ∃ row : Matrix Float, row.rows = [[1, 2]] ∧ (Value.matrix row).Shaped ∧ (Value.boolean true).Shaped ∧
      (∃ fault, pow.apply (.matrix row) (.boolean true) =
        .error (.ofCause (.dimensionMismatch fault))) ∧
      pow.apply (.matrix row) (.number 1.0 none) = pow.apply (.matrix row) (.boolean true) := by
  let row : Matrix Float := ⟨[[1, 2]], 2, by decide⟩
  have hrow : (Value.matrix row).Shaped := Matrix.shaped_iff.2 (by decide)
  have htrue : (Value.boolean true).Shaped := trivial
  obtain ⟨-, hdims, -, -, -, -, hcounts⟩ := apply_table pow hrow htrue
  have hmismatched : pow.Mismatched (.matrix row) (.boolean true) := ⟨row, rfl, nofun, by decide⟩
  obtain ⟨fault, hfault⟩ := hdims.2 hmismatched
  refine ⟨row, rfl, hrow, htrue, ⟨fault, hfault⟩, ?_⟩
  rcases hcounts _ _ (.refl _) (.bit true none) rfl with hsame | ⟨hother, -⟩
  · exact hsame
  · cases hfault.symm.trans hother

end BinaryOp

end Reckon
