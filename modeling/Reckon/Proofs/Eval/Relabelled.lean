import Reckon.Proofs.Eval.Located
import Reckon.Proofs.Syntax.Relabelled

/-!
# Evaluation does not look at spans

If every span of a node is changed, and every span of the functions in scope, then an evaluation does
what it did before, except that the place of its error is changed as well
(`Eval.eval_relabels`).  So spans can be made to tell more than they did, such as the program that a
node is from, without any other effect.

Operators and native functions know no places, and what they report is placed by the nodes around them.
-/

namespace Reckon

/-! ## Changed errors, functions and frames -/

/-- The error with its place changed. -/
def Error.mapSpans (f : Span → Span) (e : Error) : Error :=
  { e with span := e.span.map f }

/-- The failure with its place changed. -/
def Failure.mapSpans (f : Span → Span) : Failure → Failure
  | .reported e => .reported (e.mapSpans f)
  | .mishap c => .mishap c

/-- The function with the spans of its body changed. -/
def Function.mapSpans (f : Span → Span) : Function → Function
  | .user params body bodySpan => .user params (body.map (Node.mapSpans f)) (bodySpan.map f)
  | .native b => .native b

/-- The frame with the spans of its functions changed. -/
def Frame.mapSpans (f : Span → Span) (frame : Frame) : Frame :=
  { frame with functions := frame.functions.map fun p => (p.1, p.2.mapSpans f) }

/-- The machine with the spans of its functions changed. -/
def Machine.mapSpans (f : Span → Span) (m : Machine) : Machine :=
  { m with frame := m.frame.mapSpans f }

variable {f : Span → Span}

theorem Failure.mapSpans_locate (e : Failure) (s : Option Span) :
    (e.mapSpans f).locate (s.map f) = (e.locate s).mapSpans f := by
  rcases e with ⟨cause, _ | t⟩ | c <;> rfl

/-- Where there is no place, none is changed. -/
theorem Failure.Unplaced.mapSpans {e : Failure} (h : e.Unplaced) : e.mapSpans f = e := by
  rcases e with ⟨cause, span⟩ | c
  · have hspan : span = none := h
    rw [hspan]
    rfl
  · rfl

theorem Outcome.mapError_mapSpans {α : Type} {r : Except Failure α} (h : Unplaced r) :
    r.mapError (Failure.mapSpans f) = r := by
  cases r with
  | ok a => rfl
  | error e => exact congrArg Except.error (Failure.Unplaced.mapSpans h)

theorem Bindings.get?_map {α β : Type} (g : α → β) (b : Bindings α) (name : String) :
    get? (b.map fun p => (p.1, g p.2)) name = (b.get? name).map g := by
  induction b with
  | nil => rfl
  | cons p rest ih =>
    rw [List.map_cons, get?, get?, ih]
    split <;> rfl

theorem Bindings.set_map {α β : Type} (g : α → β) (b : Bindings α) (name : String) (value : α) :
    set (b.map fun p => (p.1, g p.2)) name (g value) =
      (b.set name value).map fun p => (p.1, g p.2) := by
  induction b with
  | nil => rfl
  | cons p rest ih =>
    rw [List.map_cons, set, set, ih]
    split <;> rfl

theorem Frame.define_mapSpans (frame : Frame) (name : String) (g : Function) :
    (frame.mapSpans f).define name (g.mapSpans f) = (frame.define name g).mapSpans f :=
  congrArg (Frame.mk frame.name frame.vars) (Bindings.set_map _ _ _ _)

/-- A frame that was opened for a call has no functions. -/
theorem Frame.bind_mapSpans (name : String) (params : List String) (args : List Value) :
    (Frame.bind { name := name } params args).mapSpans f = Frame.bind { name := name } params args := by
  have hnone : (Frame.bind { name := name } params args).functions = [] := Frame.bind_functions _ _ _
  generalize Frame.bind { name := name } params args = frame at hnone
  obtain ⟨name, vars, functions⟩ := frame
  cases hnone
  rfl

theorem Scope.findVariable?_mapSpans (s : Scope) (name : String) :
    Scope.findVariable? (s.map (Frame.mapSpans f)) name = s.findVariable? name := by
  unfold Scope.findVariable?
  rw [List.findSome?_map]
  rfl

theorem Scope.findFunction?_mapSpans (s : Scope) (name : String) :
    Scope.findFunction? (s.map (Frame.mapSpans f)) name =
      (s.findFunction? name).map fun found => (found.1.mapSpans f, found.2.map (Frame.mapSpans f)) := by
  induction s with
  | nil => rfl
  | cons frame outer ih =>
    have hget : (frame.mapSpans f).functions.get? name =
        (frame.functions.get? name).map (Function.mapSpans f) := Bindings.get?_map _ _ _
    rw [List.map_cons, findFunction?, findFunction?, hget, ih]
    cases frame.functions.get? name <;> rfl

theorem Function.arity_mapSpans (g : Function) : (g.mapSpans f).arity = g.arity := by
  cases g <;> rfl

/-! ## Evaluations side by side -/

namespace Eval

variable {α β : Type} {x x' : Eval α}

/-- From a machine with changed spans, the second evaluation does what the first one does, with its
spans changed. -/
def Relabels (f : Span → Span) (x x' : Eval α) : Prop :=
  ∀ m : Machine, x' (m.mapSpans f) =
    ((x m).1.mapError (Failure.mapSpans f), (x m).2.mapSpans f)

namespace Relabels

theorem pure (a : α) : Relabels f (Pure.pure a) (Pure.pure a) :=
  fun _ => rfl

theorem failAt (cause : Cause) (s : Option Span) :
    Relabels f (Eval.failAt cause s : Eval α) (Eval.failAt cause (s.map f)) :=
  fun _ => rfl

theorem ofExcept {r : Except Failure α} (h : Unplaced r) :
    Relabels f (Eval.ofExcept r) (Eval.ofExcept r) := by
  intro m
  show (r, m.mapSpans f) = (r.mapError _, m.mapSpans f)
  rw [Outcome.mapError_mapSpans h]

theorem bind {g g' : α → Eval β} (hx : Relabels f x x') (hg : ∀ a, Relabels f (g a) (g' a)) :
    Relabels f (x >>= g) (x' >>= g') := by
  intro m
  rw [bind_run, bind_run, hx m]
  rcases x m with ⟨e | a, m₁⟩
  · rfl
  · exact hg a m₁

theorem located {s : Option Span} (hx : Relabels f x x') :
    Relabels f (Eval.located s x) (Eval.located (s.map f) x') := by
  intro m
  rw [located_run, located_run, hx m]
  rcases x m with ⟨e | a, m₁⟩
  · show (Except.error ((e.mapSpans f).locate (s.map f)), _) = _
    rw [Failure.mapSpans_locate]
    rfl
  · rfl

theorem mapM {γ : Type} {g : α → Eval β} {g' : γ → Eval β} {h : α → γ} {xs : List α}
    (hg : ∀ a ∈ xs, Relabels f (g a) (g' (h a))) :
    Relabels f (xs.mapM g) ((xs.map h).mapM g') := by
  induction xs with
  | nil => exact pure _
  | cons a xs ih =>
    rw [List.map_cons, List.mapM_cons, List.mapM_cons]
    refine (hg a List.mem_cons_self).bind fun _ => Relabels.bind ?_ fun _ => pure _
    exact ih fun b hb => hg b (List.mem_cons_of_mem a hb)

section Parts

variable {ev ev' : Node → Eval Result} {n : Node}

theorem valueOf (h : Relabels f (ev n) (ev' (n.mapSpans f))) :
    Relabels f (Eval.valueOf ev n) (Eval.valueOf ev' (n.mapSpans f)) := by
  refine h.bind fun r => ?_
  cases r with
  | single v => exact pure v
  | nothing | compound =>
    rw [n.span_mapSpans]
    exact failAt _ _

theorem cell (h : Relabels f (ev n) (ev' (n.mapSpans f))) :
    Relabels f (Eval.cell ev n) (Eval.cell ev' (n.mapSpans f)) := by
  refine (valueOf h).bind fun v => ?_
  cases v.number? with
  | some x => exact pure x
  | none =>
    rw [n.span_mapSpans]
    exact failAt _ _

end Parts

variable {ev : Scope → Node → Eval Result} {outer : Scope}

/-- Nodes are evaluated alike in every scope. -/
def Everywhere (f : Span → Span) (ev : Scope → Node → Eval Result) : Prop :=
  ∀ outer n, Relabels f (ev outer n) (ev (outer.map (Frame.mapSpans f)) (n.mapSpans f))

theorem call (hev : Everywhere f ev) (name : String) (args : List Value) (s : Option Span) :
    Relabels f (Eval.call ev outer name args s)
      (Eval.call ev (outer.map (Frame.mapSpans f)) name args (s.map f)) := by
  intro m
  have hfind : Scope.findFunction? ((m.mapSpans f).frame :: outer.map (Frame.mapSpans f)) name = _ :=
    Scope.findFunction?_mapSpans (m.frame :: outer) name
  cases hfound : Scope.findFunction? (m.frame :: outer) name with
  | none =>
    rw [hfound] at hfind
    rw [call_undefined hfound, call_undefined hfind]
    rfl
  | some found =>
    obtain ⟨g, home⟩ := found
    rw [hfound] at hfind
    by_cases harity : args.length = g.arity
    · cases g with
      | native b =>
        obtain ⟨v, rfl⟩ := List.length_eq_one_iff.1 harity
        rw [call_native hfound, call_native hfind, Outcome.mapError_mapSpans (b.apply_unplaced v)]
        rfl
      | user params body bodySpan =>
        have hbody := hev home (.block body bodySpan) (entered name params args home m.log)
        have hentered : (entered name params args home m.log).mapSpans f =
            entered name params args (home.map (Frame.mapSpans f)) m.log := by
          unfold entered Machine.mapSpans
          rw [Frame.bind_mapSpans, List.length_map]
        rw [hentered, Node.mapSpans, Node.mapSpansList_eq_map] at hbody
        have huser : Scope.findFunction? ((m.mapSpans f).frame :: outer.map (Frame.mapSpans f)) name =
            some (.user params (body.map (Node.mapSpans f)) (bodySpan.map f),
              home.map (Frame.mapSpans f)) := hfind
        have hlog : (m.mapSpans f).log = m.log := rfl
        rw [call_user hfound harity, call_user huser harity, hlog, hbody]
        rcases ev home (.block body bodySpan) (entered name params args home m.log) with ⟨e | r, m₁⟩
        · rfl
        · show (returned name (bodySpan.map f) r, _) = ((returned name bodySpan r).mapError _, _)
          unfold returned
          cases r.values.getLast? <;> rfl
    · have harity' : args.length ≠ (g.mapSpans f).arity := by rwa [Function.arity_mapSpans]
      rw [call_arity hfound harity, call_arity hfind harity', Function.arity_mapSpans]
      rfl

/-- One step, for any node. -/
theorem step (hev : Everywhere f ev) (n : Node) :
    Relabels f (Eval.step ev outer n)
      (Eval.step ev (outer.map (Frame.mapSpans f)) (n.mapSpans f)) := by
  have hvalue : ∀ e, Relabels f (Eval.valueOf (ev outer) e)
      (Eval.valueOf (ev (outer.map (Frame.mapSpans f))) (e.mapSpans f)) :=
    fun e => valueOf (hev outer e)
  cases n with
  | empty s => exact pure _
  | literal v s => exact pure _
  | var name s =>
    intro m
    have hfind : Scope.findVariable? ((m.mapSpans f).frame :: outer.map (Frame.mapSpans f)) name =
        Scope.findVariable? (m.frame :: outer) name := Scope.findVariable?_mapSpans (m.frame :: outer) name
    rw [Node.mapSpans, Eval.step, Eval.step, bind_run_ok (get_run m), bind_run_ok (get_run _), hfind]
    cases Scope.findVariable? (m.frame :: outer) name <;> rfl
  | unary op e s =>
    exact (hvalue e).bind fun v => (ofExcept (op.apply_unplaced v)).bind fun _ => pure _
  | binary l op r s =>
    exact (hvalue l).bind fun v => (hvalue r).bind fun w =>
      (ofExcept (op.apply_unplaced v w)).bind fun _ => pure _
  | ternary c y m s =>
    refine (hvalue c).bind fun v => ?_
    cases v with
    | boolean b =>
      cases b
      · exact (hvalue m).bind fun _ => pure _
      · exact (hvalue y).bind fun _ => pure _
    | number | matrix =>
      rw [c.span_mapSpans]
      exact failAt _ _
  | matrix rows s =>
    rw [Node.mapSpans, Node.mapSpansRows_eq_map]
    refine (mapM fun row _ => mapM fun e _ => cell (hev outer e)).bind fun cells => ?_
    exact (ofExcept (Builtin.shaped_unplaced _)).bind fun _ => pure _
  | call name args s =>
    rw [Node.mapSpans, Node.mapSpansList_eq_map]
    exact (mapM fun e _ => hvalue e).bind fun vs => (call hev name vs s).bind fun _ => pure _
  | assign t e s => exact (hvalue e).bind fun v => Relabels.bind (fun _ => rfl) fun _ => pure _
  | block children s =>
    rw [Node.mapSpans, Node.mapSpansList_eq_map]
    exact (mapM fun e _ => hev outer e).bind fun rs => pure _
  | define name ps statements bs s =>
    intro m
    rw [Node.mapSpans, Node.mapSpansList_eq_map]
    have hdefine := Frame.define_mapSpans (f := f) m.frame name
      (.user (ps.map Identifier.name) statements bs)
    exact Prod.ext rfl (congrArg (Machine.mk · _) hdefine)

end Relabels

/-- **Spans do not matter to evaluation.**  With changed spans it gives the same result, or the same
error at the changed place, and leaves the same machine with its spans changed. -/
theorem eval_relabels (f : Span → Span) (depth : Nat) : Relabels.Everywhere f (eval depth) := by
  induction depth with
  | zero => exact fun _ _ _ => rfl
  | succ depth ih =>
    intro outer n
    rw [eval, eval, n.span_mapSpans]
    exact (Relabels.step ih n).located

end Eval

end Reckon
