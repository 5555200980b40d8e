import Reckon.Proofs.Matrix.Checked
import Reckon.Proofs.Number.Zero
import Reckon.Proofs.Parsing.WellFormed
import Reckon.Proofs.Scope.Nesting

/-!
# Programs that were parsed run into no internal error

The evaluator counts on the trees it is given and on its own bookkeeping: that an operator is in the
table of operators, that the outcome which says it is one value has one, that elimination finds the
entries it reads, that nothing divides by zero without having looked.  Where one of these failed, it
would be an error of the machinery and not of the program (`Breach`).

Here they are looked at wherever an evaluation comes to them (`Visit.Breaches`): no evaluation of a
session of parsed programs does any of this, and each node it comes to, in bodies of functions from
earlier programs too, is as the parser made it (`Program.parsed_safe`).  That a node is of one of the
kinds that the evaluator knows, and a value of one of those that the operators know, is what their types
say.
-/

namespace Reckon

open Eval Reckon.Matrix

/-! ## Zero is negligible -/

/-- A double that equals zero, with whichever sign, is below the threshold. -/
theorem negligible_of_beq_zero (x : Float) (h : (x == 0) = true) :
    Scalar.negligible Builtin.threshold x = true := by
  obtain ⟨s, hs⟩ := unpack_of_beq_zero h
  have habs : x.abs = 0 := by
    show Float.ofModel (Float.Model.pack x.toModel.unpack.abs) = 0
    rw [hs]
    rfl
  show decide (x.abs < 1e-12) = true
  rw [habs]
  decide +kernel

/-! ## Operations, checked -/

/-- The operator that the table has under this symbol, applied.  It refuses to divide by zero, and its division is
checked. -/
def BinaryOp.applyChecked (symbol : String) (x y : Value) : Except Breach (Except Failure Value) :=
  match ofSymbol? symbol with
  | none => .error (.key symbol)
  | some op =>
    match op, x.operand, y.operand with
    | .div, .scalar a, .scalar b =>
      if b == 0 then .ok (.error (.ofCause (.divisionByZero op.symbol)))
      else (Checked.divide (· == 0) a b).map fun q => .ok (plain q)
    | _, _, _ => .ok (op.apply x y)

theorem BinaryOp.ofSymbol?_symbol (op : BinaryOp) : ofSymbol? op.symbol = some op := by
  cases op <;> decide +kernel

theorem BinaryOp.applyChecked_eq (op : BinaryOp) (x y : Value) :
    applyChecked op.symbol x y = .ok (op.apply x y) := by
  rw [applyChecked, ofSymbol?_symbol]
  dsimp only
  split
  · rename_i a b hx hy
    split
    · rename_i hb
      simp only [apply, arithmetic, hx, hy, if_pos hb]
    · rename_i hb
      have happly : BinaryOp.div.apply x y = .ok (plain (a / b)) := by
        simp only [apply, arithmetic, hx, hy, if_neg hb]
      have hdivide : Checked.divide (· == 0) a b = .ok (a / b) := if_neg hb
      rw [hdivide, happly]
      rfl
  · rfl

/-- The native function applied; its elimination is checked. -/
def Builtin.applyChecked (b : Builtin) (v : Value) : Except Breach (Except Failure Value) :=
  match b, v with
  | .det, .matrix m | .determinant, .matrix m =>
    if m.isSquare then (Checked.determinant (· == 0) threshold m).map fun d => .ok (BinaryOp.plain d)
    else .ok (b.apply v)
  | .rref, .matrix m => (Checked.reducedRows (· == 0) threshold m).map fun rows => shaped (ofRows? rows)
  | _, _ => .ok (b.apply v)

theorem Builtin.applyChecked_eq (b : Builtin) (v : Value) : b.applyChecked v = .ok (b.apply v) := by
  have hdeterminant : ∀ m : Matrix Float, m.isSquare = true →
      Checked.determinant (· == 0) threshold m = .ok (m.determinant threshold) := fun m hm =>
    Checked.determinant_eq negligible_of_beq_zero hm
  unfold applyChecked
  split
  · rename_i m
    split
    · rename_i hm
      rw [hdeterminant m hm, apply, matrixArgument, ok_bind, if_pos hm]
      rfl
    · rfl
  · rename_i m
    split
    · rename_i hm
      rw [hdeterminant m hm, apply, matrixArgument, ok_bind, if_pos hm]
      rfl
    · rfl
  · rename_i m
    rw [Checked.reducedRows_eq negligible_of_beq_zero m]
    rfl
  · rfl

/-! ## Evaluations -/

namespace Visit

/-- The evaluation comes to something that fails its check. -/
inductive Breaches (b : Breach) : Visit → Prop where
  /-- An operator, once it has its operands. -/
  | operator {d : Nat} {outer : Scope} {l r : Node} {op : BinaryOp} {span : Option Span}
      {m m₁ m₂ : Machine} {x y : Value} (hl : valueOf (eval d outer) l m = (.ok x, m₁))
      (hr : valueOf (eval d outer) r m₁ = (.ok y, m₂))
      (fails : BinaryOp.applyChecked op.symbol x y = .error b) :
      Breaches b ⟨d + 1, outer, .binary l op r span, m⟩
  /-- A native function, once it has its argument. -/
  | native {d : Nat} {outer home : Scope} {name : String} {args : List Node} {span : Option Span}
      {m m₁ : Machine} {v : Value} {f : Builtin}
      (hargs : args.mapM (valueOf (eval d outer)) m = (.ok [v], m₁))
      (hfound : Scope.findFunction? (m₁.frame :: outer) name = some (.native f, home))
      (fails : f.applyChecked v = .error b) : Breaches b ⟨d + 1, outer, .call name args span, m⟩
  /-- An outcome that says it is one value: that value is read. -/
  | value {d : Nat} {outer : Scope} {node : Node} {m m₁ : Machine} {r : Result}
      (hr : eval d outer node m = (.ok r, m₁)) (single : r.kind = .single)
      (fails : Checked.get r.values 0 = .error b) : Breaches b ⟨d, outer, node, m⟩

theorem not_breaches (b : Breach) (v : Visit) : ¬ v.Breaches b := by
  intro h
  cases h with
  | operator _ _ fails =>
    rw [BinaryOp.applyChecked_eq] at fails
    cases fails
  | native _ _ fails =>
    rw [Builtin.applyChecked_eq] at fails
    cases fails
  | @value _ _ _ _ _ r _ single fails =>
    cases r with
    | single v => cases fails
    | nothing => cases single
    | compound vs => cases single

end Visit

namespace Program

/-- **A program that parses is well formed, and runs into no internal error.**  Whatever parsed programs
ran before it, in the same global scope, each node that the evaluation comes to is proper, and nothing
that it does fails its check. -/
theorem parsed_safe {file source : String} {program : Node} (h : Node.parse file source = .ok program) :
    program.WellFormed ∧
    ∀ programs : List Node, (∀ p ∈ programs, ∃ file source, Node.parse file source = .ok p) →
      ∀ w, Visit.Visits ⟨maxDepth, [], program, after fresh programs⟩ w →
        w.node.Proper ∧ ∀ b, ¬ w.Breaches b := by
  refine ⟨Node.wellFormed_of_parse h, fun programs hprograms w hw => ⟨?_, fun b => w.not_breaches b⟩⟩
  -- The node stands in one of the programs, and all of them were parsed.
  obtain ⟨p, hp, around, hstands, -⟩ := (visit_sited programs program hw).stands
  have hparsed : ∃ file source, Node.parse file source = .ok p := by
    rcases List.mem_cons.1 hp with rfl | hp
    · exact ⟨file, source, h⟩
    · exact hprograms p hp
  obtain ⟨file', source', hparse⟩ := hparsed
  exact (Node.wellFormed_of_parse hparse).formed around w.node hstands

/-- Two programs, where the second one calls a function of the first. -/
theorem parsed_safe_session : ∃ first second : Node,
    Node.parse "<input>" "m(a) = [a 1; 2 3]" = .ok first ∧
    Node.parse "<input>" "det(m(4)) / 2" = .ok second ∧ second.WellFormed ∧
    ∀ w, Visit.Visits ⟨maxDepth, [], second, after fresh [first]⟩ w →
      w.node.Proper ∧ ∀ b, ¬ w.Breaches b := by
  obtain ⟨first, hfirst⟩ := Node.exists_parse_of_toBool (by decide +kernel :
    (Node.parse "<input>" "m(a) = [a 1; 2 3]").toBool = true)
  obtain ⟨second, hsecond⟩ := Node.exists_parse_of_toBool (by decide +kernel :
    (Node.parse "<input>" "det(m(4)) / 2").toBool = true)
  obtain ⟨hformed, hsafe⟩ := parsed_safe hsecond
  refine ⟨first, second, hfirst, hsecond, hformed, hsafe [first] fun p hp => ?_⟩
  rw [List.mem_singleton.1 hp]
  exact ⟨_, _, hfirst⟩

end Program

end Reckon
