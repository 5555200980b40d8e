import Reckon.Proofs.Eval.Guarded
import Reckon.Proofs.Parsing.WellFormed
import Reckon.Proofs.Scope.Purity

/-!
# What a statement that fails leaves behind

A statement is an expression or an assignment.  An assignment writes last, once its value is there, and a
call writes to a frame of its own; so wherever a statement fails, in an operand, an argument, a cell, a
branch or the body of a function, nothing that was there before has changed.

With one exception, since definitions are expressions of the grammar: a definition that stands as an
operand is stored like any other, and only then its lack of a value is noticed
(`Program.failed_definition`).  That is the end of the evaluation.  So at most one definition is stored,
and it is the one that the error is about (`Program.failed_statement`).
-/

namespace Reckon

open Eval

namespace Node

variable {statement n e : Node}

/-- The node is an operand in the statement: a part of a node that is evaluated with it. -/
def HasOperand (statement n : Node) : Prop :=
  ∃ p, statement.Stands [] p ∧ n ∈ p.parts

theorem HasOperand.part (h : statement.HasOperand n) (he : e ∈ n.parts) : statement.HasOperand e := by
  obtain ⟨p, hp, hn⟩ := h
  exact ⟨n, .part hp hn, he⟩

/-- The failure is about a definition that stands as an operand in the statement, and the frame is the one
before with this definition. -/
def Registers (statement : Node) (failure : Failure) (before after : Frame) : Prop :=
  ∃ name params body bodySpan s,
    statement.HasOperand (.define name params body bodySpan (some s)) ∧
    failure = .placed (.evaluation .noValue) (some s) ∧
    after = before.define name (.user (params.map Identifier.name) body bodySpan)

/-- The frame is the one before, but for such a definition. -/
def Leaves (statement : Node) (before : Frame) (failure : Failure) (after : Frame) : Prop :=
  after = before ∨ statement.Registers failure before after

/-- A failure about a definition has its place already. -/
theorem Leaves.locate {before after : Frame} {failure : Failure}
    (h : statement.Leaves before failure after) (s : Option Span) :
    statement.Leaves before (failure.locate s) after := by
  rcases h with h | ⟨name, params, body, bodySpan, t, hoperand, rfl, hafter⟩
  · exact .inl h
  · exact .inr ⟨name, params, body, bodySpan, t, hoperand, rfl, hafter⟩

/-- What stands below a part stands below the node. -/
theorem Stands.of_part (he : e ∈ n.parts) {around : List String} {m : Node}
    (h : e.Stands around m) : n.Stands around m := by
  induction h with
  | root => exact .part .root he
  | part _ hpart ih => exact .part ih hpart
  | body _ ih => exact .body ih

theorem Statement.of_block {children : List Node} {span : Option Span}
    (h : (block children span).Formed) (hmem : statement ∈ children) : statement.Statement where
  formed around m hm := h around m (.of_part hmem hm)
  notBlock := h.proper.noBlock statement hmem

/-- No node that is evaluated with a statement is a block. -/
theorem Statement.notBlock_of_stands (h : statement.Statement) {p : Node}
    (hp : statement.Stands [] p) : p.isBlock = false := by
  cases hp with
  | root => exact h.notBlock
  | part hn he => exact (h.formed _ _ hn).noBlock _ he

theorem Statement.operand (h : statement.Statement) (hn : statement.HasOperand n) :
    n.isBlock = false ∧ n.isAssignment = false ∧ n.span.isSome = true := by
  obtain ⟨p, hp, hmem⟩ := hn
  have hproper := h.formed _ p hp
  exact ⟨hproper.noBlock n hmem, hproper.noAssignment (h.notBlock_of_stands hp) n hmem,
    (h.formed _ n (.part hp hmem)).spanned⟩

end Node

namespace Eval

variable {f : Frame} {E : Failure → Frame → Prop} {ev : Scope → Node → Eval Result} {outer : Scope}
  {n : Node}

/-- The evaluation leaves the frame alone, unless it fails. -/
abbrev Steady {α : Type} (f : Frame) (E : Failure → Frame → Prop) (x : Eval α) : Prop :=
  Meets (· = f) (fun _ => True) E x

theorem Steady.valueOf {ev : Node → Eval Result} (hE : ∀ e, E e f) (h : Steady f E (ev n)) :
    Steady f E (valueOf ev n) := by
  have hall : Meets (· = f) (Result.All fun _ => True) E (ev n) :=
    h.mono (fun _ _ _ _ => trivial) fun _ _ he => he
  refine Meets.valueOf hall ?_
  rintro g rfl
  exact hE _

/-- A node that itself writes nothing leaves the frame alone if its operands do. -/
theorem step_steady (hE : ∀ e, E e f) (hblock : n.isBlock = false) (hassign : n.isAssignment = false)
    (hdefine : n.bodyBlock? = none) (hpart : ∀ e ∈ n.parts, Steady f E (valueOf (ev outer) e)) :
    Steady f E (step ev outer n) := by
  have hfail : ∀ e g, g = f → E e g := by
    rintro e g rfl
    exact hE e
  have hpure : ∀ {α : Type} (a : α), Steady f E (pure a) := fun _ => .pure trivial
  have hoperation : ∀ r : Except Failure Value, Steady f E (ofExcept r) := by
    refine fun r => .ofExcept fun g hg => ?_
    cases r with
    | ok v => trivial
    | error e => exact hfail e g hg
  have hmany : ∀ {α β : Type} {x : α → Eval β} {xs : List α},
      (∀ a ∈ xs, Steady f E (x a)) → Steady f E (xs.mapM x) := fun hx =>
    (Meets.mapM hx).mono (fun _ _ => trivial) fun _ _ he => he
  cases n with
  | literal v span => exact hpure _
  | empty span => exact hpure _
  | var name span =>
    intro m hm
    rw [step, bind_run_ok (get_run m)]
    cases Scope.findVariable? (m.frame :: outer) name with
    | some v => exact hpure (Result.single v) m hm
    | none =>
      have hmissing : Steady f E (failAt (.undeclaredVariable name) span : Eval Result) :=
        .failAt (hfail _)
      exact hmissing m hm
  | unary op e span =>
    exact (hpart e (by simp [Node.parts])).bind fun x _ => (hoperation _).bind fun _ _ => hpure _
  | binary l op r span =>
    refine (hpart l (by simp [Node.parts])).bind fun x _ => ?_
    exact (hpart r (by simp [Node.parts])).bind fun y _ => (hoperation _).bind fun _ _ => hpure _
  | ternary c y m span =>
    refine (hpart c (by simp [Node.parts])).bind fun v _ => ?_
    cases v with
    | boolean b =>
      refine (hpart _ ?_).bind fun _ _ => hpure _
      cases b <;> simp [Node.parts]
    | number x unit => exact .failAt (hfail _)
    | matrix m => exact .failAt (hfail _)
  | matrix rows span =>
    refine (hmany fun row hrow => hmany fun e he => ?_).bind fun _ _ =>
      (hoperation _).bind fun _ _ => hpure _
    exact .cell (hpart e (List.mem_flatten.2 ⟨row, hrow, he⟩)) fun _ => hfail _
  | call name args span =>
    refine (hmany fun e he => hpart e he).bind fun vs _ => ?_
    exact (Meets.call_unguarded hfail).bind fun _ _ => hpure _
  | assign target e span => cases hassign
  | block children span => cases hblock
  | define name params body bodySpan span => cases hdefine

variable {statement : Node}

/-- An operand of a statement gives a value and leaves the frame alone, or it fails. -/
theorem operand_leaves (hs : statement.Statement) (f : Frame) (depth : Nat) (outer : Scope)
    (hn : statement.HasOperand n) :
    Steady f (statement.Leaves f) (valueOf (eval depth outer) n) := by
  have hunchanged : ∀ e, statement.Leaves f e f := fun e => .inl rfl
  induction depth generalizing outer n with
  | zero =>
    refine Steady.valueOf hunchanged fun m hm => ⟨fun r m₁ h => (by cases h), fun e m₁ h => ?_⟩
    cases h
    exact .inl hm
  | succ depth ih =>
    obtain ⟨hblock, hassign, hspan⟩ := hs.operand hn
    cases hdefine : n.bodyBlock? with
    | none =>
      have hstep := step_steady hunchanged hblock hassign hdefine fun e he => ih outer (hn.part he)
      refine Steady.valueOf hunchanged ?_
      rw [eval]
      exact (hstep.mono (fun _ h => h) fun e g he => he.locate n.span).located
    | some b =>
      -- A definition is stored before its lack of a value is noticed.
      cases n with
      | define name params body bodySpan span =>
        obtain ⟨s, rfl⟩ := Option.isSome_iff_exists.1 hspan
        rintro m rfl
        refine ⟨fun v m₁ h => (by cases h), fun e m₁ h => ?_⟩
        cases h
        exact .inr ⟨name, params, body, bodySpan, s, hn, rfl, rfl⟩
      | _ => cases hdefine

/-- So does a statement that fails, whichever it is. -/
theorem statement_leaves (hs : statement.Statement) {depth : Nat} {outer : Scope} {m m₁ : Machine}
    {e : Failure} (h : eval depth outer statement m = (.error e, m₁)) :
    statement.Leaves m.frame e m₁.frame := by
  have hunchanged : ∀ e, statement.Leaves m.frame e m.frame := fun e => .inl rfl
  cases depth with
  | zero =>
    cases h
    exact .inl rfl
  | succ depth =>
    have hoperand : ∀ n ∈ statement.parts,
        Steady m.frame (statement.Leaves m.frame) (valueOf (eval depth outer) n) := fun n hn =>
      operand_leaves hs m.frame depth outer ⟨statement, .root, hn⟩
    rw [eval, located_run] at h
    -- It is enough that the step fails so: a place changes nothing.
    suffices hstep : ∀ e m₁, step (eval depth) outer statement m = (.error e, m₁) →
        statement.Leaves m.frame e m₁.frame by
      rcases hrun : step (eval depth) outer statement m with ⟨e' | r, m'⟩
      · rw [hrun] at h
        cases h
        exact (hstep e' m' hrun).locate statement.span
      · rw [hrun] at h
        cases h
    intro e m₁ hrun
    by_cases hassign : statement.isAssignment = true
    · -- The value is assigned last, so that it is the value that failed.
      cases statement with
      | assign target value span =>
        rcases hv : valueOf (eval depth outer) value m with ⟨e' | v, m'⟩
        · rw [step, bind_run_error hv] at hrun
          cases hrun
          exact (hoperand value (by simp [Node.parts]) m rfl).2 e m₁ hv
        · rw [step, bind_run_ok hv, bind_run_ok (modify_run _ _)] at hrun
          cases hrun
      | _ => cases hassign
    · cases hdefine : statement.bodyBlock? with
      | none =>
        have hsteady := step_steady hunchanged hs.notBlock (Bool.eq_false_iff.2 hassign) hdefine
          hoperand
        exact (hsteady m rfl).2 e m₁ hrun
      | some b =>
        cases statement with
        | define name params body bodySpan span => cases hrun
        | _ => cases hdefine

end Eval

namespace Program

/-- **A statement that fails changes nothing**, but for a definition that it has as an operand and that
the error is about: the frame it was evaluated in is as before, or has this one definition more.  With
shared frames, no other frame that was there before has changed either. -/
theorem failed_statement {file source : String} {children : List Node} {span : Option Span}
    (hparse : Node.parse file source = .ok (.block children span)) {statement : Node}
    (hmem : statement ∈ children) (depth : Nat) (e : Error) :
    (∀ outer m m₁, eval depth outer statement m = (.error (.reported e), m₁) →
      statement.Leaves m.frame (.reported e) m₁.frame) ∧
    ∀ i s s₁, s.tree.Ordered → i < s.tree.entries.length →
      Shared.evalAt depth i statement s = (.error (.reported e), s₁) →
      ∃ f, statement.Leaves (s.tree.frame i) (.reported e) f ∧
        ScopeTree.Spares (s.tree.setFrame i f) s₁.tree := by
  have hs : statement.Statement := .of_block (Node.wellFormed_of_parse hparse).formed hmem
  constructor
  · intro outer m m₁ h
    exact statement_leaves hs h
  · intro i s s₁ ht hi h
    have hfollows := Shared.evalAt_follows depth i (s.tree.outer i) statement
    have hgrows := hfollows.grows s
    have hrun := hfollows.agrees s ht hi rfl
    rw [h] at hgrows hrun
    exact ⟨s₁.tree.frame i, statement_leaves hs hrun, hgrows.spares_setFrame⟩

/-- An assignment whose value is the negation of a definition, alone and with shared frames. -/
theorem failed_statement_negated :
    ∃ children span statement e e' m₁ s₁,
      Node.parse "<input>" "y = !(g(x) = x)" = .ok (.block children span) ∧ statement ∈ children ∧
      eval 9 [] statement fresh = (.error (.reported e), m₁) ∧
      statement.Leaves fresh.frame (.reported e) m₁.frame ∧
      Shared.evalAt 9 0 statement ⟨.root fresh.frame, []⟩ = (.error (.reported e'), s₁) ∧
      ∃ f, statement.Leaves fresh.frame (.reported e') f ∧
        ScopeTree.Spares ((ScopeTree.root fresh.frame).setFrame 0 f) s₁.tree := by
  have hrun : (Node.parse "<input>" "y = !(g(x) = x)").toOption.any (fun program =>
      program.parts.any fun statement => (reported? (eval 9 [] statement fresh).1).isSome &&
        (reported? (Shared.evalAt 9 0 statement ⟨.root fresh.frame, []⟩).1).isSome) = true := by
    decide +kernel
  obtain ⟨program, hparse, hrun⟩ := toOption_any_iff.1 hrun
  obtain ⟨children, span, rfl⟩ := (Node.wellFormed_of_parse hparse).exists_block
  obtain ⟨statement, hmem, hrun⟩ := List.any_eq_true.1 hrun
  obtain ⟨halone, hshared⟩ := Bool.and_eq_true_iff.1 hrun
  obtain ⟨e, he⟩ := Option.isSome_iff_exists.1 halone
  obtain ⟨e', he'⟩ := Option.isSome_iff_exists.1 hshared
  have halone := eq_of_reported? he
  have hshared := eq_of_reported? he'
  obtain ⟨f, hleaves, hspares⟩ := (failed_statement hparse hmem 9 e').2 0
    ⟨.root fresh.frame, []⟩ _ (ScopeTree.ordered_root _) Nat.one_pos hshared
  exact ⟨children, span, statement, e, e', _, _, hparse, hmem, halone,
    (failed_statement hparse hmem 9 e).1 [] fresh _ halone, hshared, f, hleaves, hspares⟩

/-- A statement that fails can have changed the frame. -/
theorem failed_definition :
    ¬ ∀ (file source : String) (children : List Node) (span : Option Span) (statement : Node),
      Node.parse file source = .ok (.block children span) → statement ∈ children →
      ∀ e m, evaluate [] statement fresh = (.error (.reported e), m) → m.frame = fresh.frame := by
  intro h
  have hrun : (Node.parse "<input>" "(f(x) = x) + 1").toOption.any (fun program =>
      program.parts.any fun statement => (reported? (evaluate [] statement fresh).1).isSome &&
        (evaluate [] statement fresh).2.frame.functions.length != fresh.frame.functions.length) =
      true := by
    decide +kernel
  obtain ⟨program, hparse, hrun⟩ := toOption_any_iff.1 hrun
  obtain ⟨children, span, rfl⟩ := (Node.wellFormed_of_parse hparse).exists_block
  obtain ⟨statement, hmem, hrun⟩ := List.any_eq_true.1 hrun
  obtain ⟨hfails, hmore⟩ := Bool.and_eq_true_iff.1 hrun
  obtain ⟨e, he⟩ := Option.isSome_iff_exists.1 hfails
  have hframe := h _ _ children span statement hparse hmem e _ (eq_of_reported? he)
  rw [hframe] at hmore
  simp at hmore

end Program

end Reckon
