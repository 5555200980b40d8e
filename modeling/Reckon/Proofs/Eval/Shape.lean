import Reckon.Proofs.Eval.Located
import Reckon.Proofs.Scope.Nesting
import Reckon.Proofs.Value.Shape

/-!
# Every matrix of a session has a row and a column

The grammar has no matrix without rows or with rows of different lengths, and no literal that is a
matrix.  So the first matrices of a session are made of cells that form a rectangle, and operators and
native functions hand this on.  Whatever an evaluation gives, binds or passes to a function is then in
shape, however deep in calls, and also where programs before it have failed; and rows that do not fit are
never complained of (`Program.matrices_shaped`).
-/

namespace Reckon

open Eval

/-- The node stands in a program that was parsed. -/
def Node.Parsed (n : Node) : Prop :=
  ∃ file source program around, Node.parse file source = .ok program ∧ program.Stands around n

/-- Of nodes that were parsed and values in shape come only values in shape. -/
theorem Node.guarded_shaped : Guarded Node.Parsed Value.Shaped Failure.NotRagged where
  parts _ := fun ⟨file, source, program, around, hparse, hn⟩ _ he =>
    ⟨file, source, program, around, hparse, .part hn he⟩
  body name _ _ _ _ := fun ⟨file, source, program, around, hparse, hn⟩ =>
    ⟨file, source, program, name :: around, hparse, .body hn⟩
  literal v s := by
    rintro ⟨file, source, program, around, hparse, hn⟩
    have htraced := (Node.parse_places file source).1 program hparse around _ hn
    cases v with
    | number x unit => trivial
    | boolean b => trivial
    | matrix m => exact absurd rfl (htraced.notMatrix m s)
  binary _ op _ s _ _ _ hx hy := (op.apply_shaped hx hy).inShape_located s
  unary op _ s _ _ hx := (op.apply_shaped hx).inShape_located s
  matrix rows s := by
    rintro ⟨file, source, program, around, hparse, hn⟩ cells hlength hcells
    have hproper := (Node.wellFormed_of_parse hparse).formed around _ hn
    obtain ⟨hne, width, hpos, hwidth⟩ := hproper.rows rows s rfl
    have hcellsNe : cells ≠ [] := List.length_pos_iff.1 (hlength ▸ List.length_pos_iff.2 hne)
    refine (Builtin.ofRows_shaped hcellsNe hpos fun xs hxs => ?_).inShape_located s
    obtain ⟨row, hrow, hxs'⟩ := hcells xs hxs
    exact hxs'.trans (hwidth row hrow)
  native _ _ s _ b _ hx := (b.apply_shaped hx).inShape_located s
  complaint _ _ _ hcause := by
    rintro rfl
    cases hcause
  locate _ s he := he.locate s
  tooDeep := trivial

/-- Programs of a session, one after the other, keep what each of them keeps. -/
theorem Guarded.after {N : Node → Prop} {V : Value → Prop} {E : Failure → Prop} (h : Guarded N V E)
    {programs : List Node} (hprograms : ∀ p ∈ programs, N p) {m : Machine} (hm : m.frame.Holds N V) :
    (Program.after m programs).frame.Holds N V := by
  induction programs generalizing m with
  | nil => exact hm
  | cons program programs ih =>
    obtain ⟨hprogram, hrest⟩ := List.forall_mem_cons.1 hprograms
    exact ih hrest (h.keeps maxDepth hprogram (fun f hf => absurd hf List.not_mem_nil) m hm)

/-- The evaluation is that of a call, and these are the values that it passes to the function. -/
def Visit.Passes (w : Visit) (vs : List Value) : Prop :=
  ∃ d name args span m₁, w.depth = d + 1 ∧ w.node = .call name args span ∧
    args.mapM (valueOf (eval d w.outer)) w.machine = (.ok vs, m₁)

/-- Every variable in the scope is in shape. -/
def Scope.Shaped (s : Scope) : Prop :=
  ∀ f ∈ s, ∀ x v, (x, v) ∈ f.vars → v.Shaped

theorem Scope.Holds.shaped {N : Node → Prop} {s : Scope} (h : Scope.Holds N Value.Shaped s) :
    s.Shaped :=
  fun f hf => (h f hf).vars

namespace Program

/-- Every evaluation of a session of parsed programs runs in a scope that is in shape. -/
theorem visit_shaped {programs : List Node} {program : Node}
    (hparsed : ∀ p ∈ program :: programs, ∃ file source, Node.parse file source = .ok p) {w : Visit}
    (hw : Visit.Visits ⟨maxDepth, [], program, after fresh programs⟩ w) :
    Guarded.Holds Node.Parsed Value.Shaped w := by
  have hprograms : ∀ p ∈ program :: programs, p.Parsed := by
    intro p hp
    obtain ⟨file, source, hparse⟩ := hparsed p hp
    exact ⟨file, source, p, [], hparse, .root⟩
  obtain ⟨hprogram, hearlier⟩ := List.forall_mem_cons.1 hprograms
  have hstart : Guarded.Holds Node.Parsed Value.Shaped
      ⟨maxDepth, [], program, after fresh programs⟩ :=
    ⟨hprogram, Node.guarded_shaped.after hearlier Frame.Holds.global,
      fun f hf => absurd hf List.not_mem_nil⟩
  exact Node.guarded_shaped.visits hstart hw

/-- **Every matrix of a session has a row and a column, and its rows fit.**  Whatever parsed programs ran
before in the same global scope, this holds of every variable in the scope of every evaluation that the
program comes to, before and after it, of every value that a call passes to a function, and of every
value in an outcome; and no error is that rows do not fit.  As for dimensions, sum and difference keep
the common ones, a product has the rows of its left and the columns of its right operand, transposition
exchanges them, and a natural power of a square and the reduced form keep them.  Only where a sum of
products has no value there is no product or power. -/
theorem matrices_shaped {programs : List Node} {program : Node}
    (hparsed : ∀ p ∈ program :: programs, ∃ file source, Node.parse file source = .ok p) :
    (∀ w, Visit.Visits ⟨maxDepth, [], program, after fresh programs⟩ w →
      Scope.Shaped (w.machine.frame :: w.outer) ∧
      (∀ vs, w.Passes vs → ∀ v ∈ vs, v.Shaped) ∧
      (∀ r m₁, eval w.depth w.outer w.node w.machine = (.ok r, m₁) →
        (∀ v ∈ r.values, v.Shaped) ∧ Scope.Shaped (m₁.frame :: w.outer)) ∧
      ∀ e m₁, eval w.depth w.outer w.node w.machine = (.error e, m₁) →
        (∀ err, e = .reported err → err.cause ≠ .dimensionMismatch .ragged) ∧
          Scope.Shaped (m₁.frame :: w.outer)) ∧
    ∀ a b : Matrix Float, a.Shaped → b.Shaped →
      (a.dims = b.dims → ∃ s d, BinaryOp.add.apply (.matrix a) (.matrix b) = .ok (.matrix s) ∧
        BinaryOp.sub.apply (.matrix a) (.matrix b) = .ok (.matrix d) ∧
        s.dims = a.dims ∧ d.dims = a.dims) ∧
      (a.colCount = b.rowCount →
        (∃ p, BinaryOp.mul.apply (.matrix a) (.matrix b) = .ok (.matrix p) ∧
          p.dims = ((a.rowCount : Int), b.colCount)) ∨
        ∃ c, BinaryOp.Undefined .mul (.matrix a) (.matrix b) c) ∧
      (∀ f ∈ [Builtin.transpose, Builtin.trans], ∃ t, f.apply (.matrix a) = .ok (.matrix t) ∧
        t.dims = (a.colCount, (a.rowCount : Int))) ∧
      (a.isSquare = true → ∀ v y n, v.number? = some y → floatToNat? y = some n →
        (∃ p, BinaryOp.pow.apply (.matrix a) v = .ok (.matrix p) ∧ p.dims = a.dims) ∨
        ∃ c, BinaryOp.Undefined .pow (.matrix a) v c) ∧
      ∃ r, Builtin.rref.apply (.matrix a) = .ok (.matrix r) ∧ r.dims = a.dims := by
  constructor
  · intro w hw
    have hw := visit_shaped hparsed hw
    have hscope : ∀ {f : Frame}, f.Holds Node.Parsed Value.Shaped → Scope.Shaped (f :: w.outer) :=
      fun hf => (hw.outer.cons hf).shaped
    obtain ⟨hok, herror⟩ := Node.guarded_shaped.eval w.depth w.outer w.node hw.node hw.outer _ hw.frame
    refine ⟨hscope hw.frame, ?_, fun r m₁ hr => ?_, fun e m₁ he => ?_⟩
    · rintro vs ⟨d, name, args, span, m₁, -, hcall, hargs⟩
      have hparts : ∀ e ∈ args, e.Parsed := fun e he =>
        Node.guarded_shaped.parts _ hw.node e (by rw [hcall]; exact he)
      obtain ⟨hvs, -⟩ := Node.guarded_shaped.arguments (Node.guarded_shaped.eval d) hparts hw.outer _
        hw.frame
      exact (hvs vs m₁ hargs).1
    · obtain ⟨hvalues, hframe⟩ := hok r m₁ hr
      exact ⟨hvalues, hscope hframe⟩
    · obtain ⟨hfailure, hframe⟩ := herror e m₁ he
      refine ⟨fun err herr => ?_, hscope hframe⟩
      subst herr
      exact hfailure
  · intro a b ha hb
    refine ⟨fun hdims => ?_, BinaryOp.mul_dims hb, fun f hf => ?_, ?_, Builtin.reduced_dims ha⟩
    · obtain ⟨s, hs, hsum⟩ := BinaryOp.entrywise_dims .add (· + ·) ha hdims
      obtain ⟨d, hd, hdifference⟩ := BinaryOp.entrywise_dims .sub (· - ·) ha hdims
      exact ⟨s, d, hs, hd, hsum, hdifference⟩
    · have hname : f = .transpose ∨ f = .trans := by simpa using hf
      rcases hname with rfl | rfl
      · exact Builtin.transposed_dims ha
      · exact Builtin.transposed_dims ha
    · intro hsquare v y n hv hn
      exact BinaryOp.pow_dims ha hsquare hv hn

/-- A matrix that one program binds is transposed by the next one. -/
theorem matrices_shaped_transposed : ∃ first second : Node,
    Node.parse "<input>" "m = [true false]" = .ok first ∧
    Node.parse "<input>" "transpose(m)" = .ok second ∧
    ∃ r m₁, evaluate [] second (after fresh [first]) = (.ok r, m₁) ∧
      r.values.map Value.kind = [.matrix] ∧ ∀ v ∈ r.values, v.Shaped := by
  have hrun : (Node.parse "<input>" "m = [true false]").toOption.any (fun first =>
      (Node.parse "<input>" "transpose(m)").toOption.any fun second =>
        (evaluate [] second (after fresh [first])).1.toOption.any fun r =>
          decide (r.values.map Value.kind = [.matrix])) = true := by
    decide +kernel
  obtain ⟨first, hfirst, hrun⟩ := toOption_any_iff.1 hrun
  obtain ⟨second, hsecond, hrun⟩ := toOption_any_iff.1 hrun
  obtain ⟨r, hr, hkind⟩ := toOption_any_iff.1 hrun
  have hparsed : ∀ p ∈ [second, first], ∃ file source, Node.parse file source = .ok p := by
    intro p hp
    rcases List.mem_pair.1 hp with rfl | rfl
    · exact ⟨_, _, hsecond⟩
    · exact ⟨_, _, hfirst⟩
  obtain ⟨-, -, hok, -⟩ := (matrices_shaped hparsed).1 _ .refl
  obtain ⟨hshaped, -⟩ := hok r _ (Prod.ext hr rfl)
  exact ⟨first, second, hfirst, hsecond, r, _, Prod.ext hr rfl, of_decide_eq_true hkind, hshaped⟩

end Program

end Reckon
