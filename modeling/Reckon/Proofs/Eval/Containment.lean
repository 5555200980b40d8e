import Reckon.Eval.Program
import Reckon.Proofs.Eval.Visit

/-!
# Which failures get out

A run reports its errors, and `interpret` answers all of them, and running out of depth, with the
number that stands for none.  What it lets through are the break-offs of arithmetic: exactly those of
operators that the program comes to with operands for which they are undefined
(`BinaryOp.Undefined`).
-/

namespace Reckon.Program

open Reckon.Eval (maxDepth)

/-- The program comes to an operator that is undefined for its operands, and this is what happens. -/
def Escapes (file source : String) (c : Mishap) : Prop :=
  ∃ node, Node.parse file source = .ok node ∧
    ∃ v, Visit.Visits ⟨maxDepth, [], node, fresh⟩ v ∧ v.Breaks c

variable {file source : String} {c : Mishap}

theorem Escapes.ne_tooDeep (h : Escapes file source c) : c ≠ .tooDeep := by
  obtain ⟨node, -, v, -, hb⟩ := h
  cases hb with
  | operator _ _ hu => exact hu.ne_tooDeep

/-- A run breaks off exactly where it comes to an undefined operator, unless it runs out of depth. -/
theorem run_mishap_iff (hc : c ≠ .tooDeep) :
    (run file source).1 = .error (.mishap c) ↔ Escapes file source c := by
  unfold run Escapes
  cases Node.parse file source with
  | error e =>
    constructor
    · intro h
      cases h
    · rintro ⟨node, ⟨⟩, -⟩
  | ok node =>
    have h := Visit.ends_iff_visits (v := ⟨maxDepth, [], node, fresh⟩) hc
    constructor
    · intro hr
      exact ⟨node, rfl, h.1 hr⟩
    · rintro ⟨node', ⟨⟩, hv⟩
      exact h.2 hv

/-- `interpret` passes on every break-off of a run but running out of depth. -/
theorem interpret_error_iff_run :
    interpret source = .error c ↔ c ≠ .tooDeep ∧ (run "<input>" source).1 = .error (.mishap c) := by
  unfold interpret
  rcases (run "<input>" source).1 with (e | d) | r
  · simp
  · cases d with
    | tooDeep =>
      constructor
      · intro h
        cases h
      · rintro ⟨hc, h⟩
        cases h
        exact absurd rfl hc
    | infiniteRemainder | sum =>
      constructor
      · intro h
        cases h
        exact ⟨by simp, rfl⟩
      · rintro ⟨-, h⟩
        cases h
        rfl
  · simp only [reduceCtorEq, and_false, iff_false]
    split <;> simp

/-- The number that a run stands for: its last one, or the one for none. -/
def numberOf : Except Failure Result → Float
  | .ok r => (lastNumber? r.values).getD noNumber
  | .error _ => noNumber

theorem interpret_ok {x : Float} {warning : Option Warning} (h : interpret source = .ok (x, warning)) :
    x = numberOf (run "<input>" source).1 := by
  unfold interpret at h
  generalize (run "<input>" source).1 = outcome at h ⊢
  rcases outcome with (e | d) | r
  · cases h
    rfl
  · cases d <;> cases h
    rfl
  · show x = (lastNumber? r.values).getD noNumber
    cases hn : lastNumber? r.values <;> simp only [hn] at h <;> cases h <;> rfl

/-- **What gets out of a run**, other than results, reported errors and running out of depth, are the
break-offs of undefined operators, and `interpret` lets exactly these through.  Otherwise it gives the
last number of the run, or the number that stands for none. -/
theorem escapes_iff (source : String) :
    (∀ c, (run "<input>" source).1 = .error (.mishap c) ∧ c ≠ .tooDeep ↔ Escapes "<input>" source c) ∧
    (∀ c, interpret source = .error c ↔ Escapes "<input>" source c) ∧
    ∀ x warning, interpret source = .ok (x, warning) → x = numberOf (run "<input>" source).1 := by
  have hrun : ∀ c, (run "<input>" source).1 = .error (.mishap c) ∧ c ≠ .tooDeep ↔
      Escapes "<input>" source c := by
    intro c
    constructor
    · rintro ⟨h, hc⟩
      exact (run_mishap_iff hc).1 h
    · intro h
      exact ⟨(run_mishap_iff h.ne_tooDeep).2 h, h.ne_tooDeep⟩
  -- What gets out of a run is no running out of depth, so `interpret` passes all of it on.
  refine ⟨hrun, fun c => ?_, fun x warning => interpret_ok⟩
  rw [interpret_error_iff_run, and_comm]
  exact hrun c

/-- A product of finite numbers is infinite here, and has no remainder. -/
theorem escapes_infinite_remainder :
    ∃ source c, interpret source = .error c ∧ Escapes "<input>" source c := by
  obtain ⟨source, hrun⟩ : ∃ source, (interpret source).isOk = false :=
    ⟨"a = 100000000000000000000\nb = a * a * a * a\n(b * b * b * b) % 2", by decide +kernel⟩
  cases h : interpret source with
  | ok r =>
    rw [h] at hrun
    cases hrun
  | error c => exact ⟨source, c, h, ((escapes_iff source).2.1 c).1 h⟩

end Reckon.Program
