import Reckon.Proofs.Eval.Visit
import Reckon.Proofs.Syntax.Place

/-!
# What an evaluation does to its frame

Evaluating a node changes the frame by assignments and by the definitions among its parts, and by
nothing else: a call has its frame back.  So a property of frames that these two keep is kept by the
whole evaluation (`Kept.eval`), and holds whenever the evaluation starts another one
(`Visit.Starts.part_or_body`).
-/

namespace Reckon

open Eval

namespace Eval

variable {α β : Type} {P : Frame → Prop}

/-- A frame that satisfies `P` satisfies it afterwards, also after a failure. -/
def Keeps (P : Frame → Prop) (x : Eval α) : Prop :=
  ∀ m, P m.frame → P (x m).2.frame

namespace Keeps

variable {x : Eval α}

theorem pure (a : α) : Keeps P (Pure.pure a) :=
  fun _ hp => hp

theorem failAt (cause : Cause) (span : Option Span) : Keeps P (Eval.failAt cause span : Eval α) :=
  fun _ hp => hp

theorem ofExcept (r : Except Failure α) : Keeps P (Eval.ofExcept r) :=
  fun _ hp => hp

theorem bind {f : α → Eval β} (hx : Keeps P x) (hf : ∀ a, Keeps P (f a)) : Keeps P (x >>= f) := by
  intro m hp
  have hp₁ := hx m hp
  rw [bind_run]
  rcases hxm : x m with ⟨e | a, m₁⟩ <;> rw [hxm] at hp₁
  · exact hp₁
  · exact hf a m₁ hp₁

theorem located {span : Option Span} (hx : Keeps P x) : Keeps P (Eval.located span x) := by
  intro m hp
  rw [located_run]
  exact hx m hp

theorem mapM {f : α → Eval β} {xs : List α} (hf : ∀ a ∈ xs, Keeps P (f a)) : Keeps P (xs.mapM f) := by
  induction xs with
  | nil => exact pure _
  | cons a xs ih =>
    rw [List.mapM_cons]
    exact (hf a List.mem_cons_self).bind fun _ =>
      (ih fun b hb => hf b (List.mem_cons_of_mem a hb)).bind fun _ => pure _

variable {ev : Node → Eval Result} {node : Node}

theorem valueOf (h : Keeps P (ev node)) : Keeps P (Eval.valueOf ev node) := by
  refine h.bind fun r => ?_
  cases r with
  | single v => exact pure v
  | nothing => exact failAt _ _
  | compound vs => exact failAt _ _

theorem cell (h : Keeps P (ev node)) : Keeps P (Eval.cell ev node) := by
  refine (valueOf h).bind fun v => ?_
  cases v.number? with
  | some x => exact pure x
  | none => exact failAt _ _

theorem call (ev : Scope → Node → Eval Result) (outer : Scope) (name : String) (args : List Value)
    (span : Option Span) : Keeps P (Eval.call ev outer name args span) := by
  intro m hp
  rw [call_frame]
  exact hp

/-- The machine that a run left. -/
theorem of_run {m m₁ : Machine} {r : Except Failure α} (hx : Keeps P x) (h : x m = (r, m₁))
    (hp : P m.frame) : P m₁.frame := by
  have hp₁ := hx m hp
  rw [h] at hp₁
  exact hp₁

end Keeps

/-- What nodes of the kind `N` and their parts do to a frame keeps `P`. -/
structure Kept (N : Node → Prop) (P : Frame → Prop) : Prop where
  parts : ∀ n, N n → ∀ e ∈ n.parts, N e
  assign : ∀ f x v, P f → P (f.assign x v)
  define : ∀ name params body bodySpan span f, N (.define name params body bodySpan span) → P f →
    P (f.define name (.user (params.map Identifier.name) body bodySpan))

variable {N : Node → Prop}

theorem Kept.step (h : Kept N P) {ev : Scope → Node → Eval Result}
    (hev : ∀ outer n, N n → Keeps P (ev outer n)) (outer : Scope) {n : Node} (hn : N n) :
    Keeps P (step ev outer n) := by
  have hpart : ∀ e ∈ n.parts, Keeps P (ev outer e) := fun e he => hev outer e (h.parts n hn e he)
  cases n with
  | literal v span => exact .pure _
  | empty span => exact .pure _
  | var name span =>
    intro m hp
    rw [Eval.step, bind_run_ok (get_run m)]
    cases Scope.findVariable? (m.frame :: outer) name <;> exact hp
  | unary op e span =>
    exact (Keeps.valueOf (hpart e (by simp [Node.parts]))).bind fun _ =>
      (Keeps.ofExcept _).bind fun _ => .pure _
  | binary l op r span =>
    exact (Keeps.valueOf (hpart l (by simp [Node.parts]))).bind fun _ =>
      (Keeps.valueOf (hpart r (by simp [Node.parts]))).bind fun _ =>
        (Keeps.ofExcept _).bind fun _ => .pure _
  | ternary c y n span =>
    refine (Keeps.valueOf (hpart c (by simp [Node.parts]))).bind fun v => ?_
    cases v with
    | boolean b =>
      refine (Keeps.valueOf (hpart _ ?_)).bind fun _ => .pure _
      cases b <;> simp [Node.parts]
    | number x unit => exact .failAt _ _
    | matrix m => exact .failAt _ _
  | matrix rows span =>
    refine Keeps.bind (.mapM fun row hrow => .mapM fun e he => .cell (hpart e ?_)) fun _ =>
      (Keeps.ofExcept _).bind fun _ => .pure _
    exact List.mem_flatten.2 ⟨row, hrow, he⟩
  | call name args span =>
    exact Keeps.bind (.mapM fun e he => .valueOf (hpart e he)) fun vs =>
      (Keeps.call ev outer name vs span).bind fun _ => .pure _
  | assign target e span =>
    refine (Keeps.valueOf (hpart e (by simp [Node.parts]))).bind fun v =>
      Keeps.bind ?_ fun _ => .pure _
    exact fun m hp => h.assign m.frame target.name v hp
  | block children span => exact Keeps.bind (.mapM fun e he => hpart e he) fun _ => .pure _
  | define name params body bodySpan span =>
    exact fun m hp => h.define name params body bodySpan span m.frame hn hp

theorem Kept.eval (h : Kept N P) (depth : Nat) (outer : Scope) {n : Node} (hn : N n) :
    Keeps P (eval depth outer n) := by
  induction depth generalizing outer n with
  | zero => exact fun _ hp => hp
  | succ depth ih =>
    rw [Eval.eval]
    exact (h.step (fun outer n hn => ih outer hn) outer hn).located

end Eval

namespace Visit

variable {v w : Visit}

/-- An evaluation starts that of a part of its node, and then the frame keeps what the parts keep, or
that of the body of a function which it calls, once it has the arguments. -/
theorem Starts.part_or_body (h : Starts v w) :
    (w.node ∈ v.node.parts ∧ w.outer = v.outer ∧
      ∀ P, (∀ e ∈ v.node.parts, Keeps P (eval w.depth v.outer e)) → P v.machine.frame →
        P w.machine.frame) ∨
    ∃ (name : String) (args : List Node) (span : Option Span) (vs : List Value) (m₁ : Machine)
      (params : List String) (body : List Node) (bodySpan : Option Span),
      v.node = .call name args span ∧
      args.mapM (valueOf (eval w.depth v.outer)) v.machine = (.ok vs, m₁) ∧
      Scope.findFunction? (m₁.frame :: v.outer) name = some (.user params body bodySpan, w.outer) ∧
      w.node = .block body bodySpan ∧ w.machine = entered name params vs w.outer m₁.log := by
  cases h with
  | left => exact .inl ⟨by simp [Node.parts], rfl, fun _ _ hp => hp⟩
  | operand => exact .inl ⟨by simp [Node.parts], rfl, fun _ _ hp => hp⟩
  | condition => exact .inl ⟨by simp [Node.parts], rfl, fun _ _ hp => hp⟩
  | value => exact .inl ⟨by simp [Node.parts], rfl, fun _ _ hp => hp⟩
  | @right d outer l r op span m m₁ x hl =>
    refine .inl ⟨by simp [Node.parts], rfl, fun P hk hp => ?_⟩
    exact (Keeps.valueOf (hk l (by simp [Node.parts]))).of_run hl hp
  | @branch d outer c y n span m m₁ b hc =>
    refine .inl ⟨by cases b <;> simp [Node.parts], rfl, fun P hk hp => ?_⟩
    exact (Keeps.valueOf (hk c (by simp [Node.parts]))).of_run hc hp
  | @cell d outer rows rows' cells cells' e span m m₁ m₂ xss xs hrows hcells =>
    refine .inl ⟨by simp [Node.parts], rfl, fun P hk hp => ?_⟩
    have hcell : ∀ a, a ∈ rows.flatten ∨ a ∈ cells → Keeps P (Eval.cell (eval d outer) a) := by
      intro a ha
      refine Keeps.cell (hk a ?_)
      rcases ha with ha | ha <;> simp [Node.parts, ha]
    have hp₁ := (Keeps.mapM fun row hrow => Keeps.mapM fun a ha =>
      hcell a (.inl (List.mem_flatten.2 ⟨row, hrow, ha⟩))).of_run hrows hp
    exact (Keeps.mapM fun a ha => hcell a (.inr ha)).of_run hcells hp₁
  | @argument d outer name args args' e span m m₁ vs hargs =>
    refine .inl ⟨by simp [Node.parts], rfl, fun P hk hp => ?_⟩
    exact (Keeps.mapM fun a ha => Keeps.valueOf (hk a (by simp [Node.parts, ha]))).of_run hargs hp
  | @body d outer home name args span m m₁ vs params body bodySpan hargs hfound harity =>
    exact .inr ⟨name, args, span, vs, m₁, params, body, bodySpan, rfl, hargs, hfound, rfl, rfl⟩
  | @child d outer done rest e span m m₁ rs hdone =>
    refine .inl ⟨by simp [Node.parts], rfl, fun P hk hp => ?_⟩
    exact (Keeps.mapM fun a ha => hk a (by simp [Node.parts, ha])).of_run hdone hp

end Visit

end Reckon
