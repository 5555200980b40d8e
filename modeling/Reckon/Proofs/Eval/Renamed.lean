import Reckon.Proofs.Eval.Run
import Reckon.Proofs.Scope.Renamed

/-!
# Evaluation does not depend on the names of variables

A node and its renamed copy, evaluated in a scope and its renamed copy, give the same result, or errors
that differ in their places only, and they leave scopes that are again copies of one another
(`Renaming.eval_agree`).  The evaluator looks names up, binds them, and reports those that nothing
binds.  None of this tells two copies apart: a name that nothing binds is not renamed.
-/

namespace Reckon

/-- The failure without its place. -/
def Failure.bare : Failure → Failure
  | .reported e => .reported { cause := e.cause }
  | .mishap c => .mishap c

@[simp]
theorem Failure.bare_locate (span : Option Span) (f : Failure) : (f.locate span).bare = f.bare := by
  cases f with
  | reported e => simp [locate, bare]
  | mishap c => rfl

/-- Steps that agree up to places agree one after the other. -/
theorem mapError_bind {α β : Type} {x x' : Except Failure α} {g g' : α → Except Failure β}
    (hx : x'.mapError Failure.bare = x.mapError Failure.bare)
    (hg : ∀ a, (g' a).mapError Failure.bare = (g a).mapError Failure.bare) :
    (x'.bind g').mapError Failure.bare = (x.bind g).mapError Failure.bare := by
  cases x with
  | error e =>
    cases x' with
    | error e' =>
      have he : e'.bare = e.bare := by injection hx
      exact congrArg Except.error he
    | ok a' => cases hx
  | ok a =>
    cases x' with
    | error e' => cases hx
    | ok a' =>
      cases hx
      exact hg a

namespace Renaming

open Eval

variable {R : Renaming} {ρ : String → String} {outer outer' : Scope} {α β : Type}

/-- Evaluated in a scope and its renamed copy, the two give the same result, or errors that differ in
their places only; they leave scopes that are copies of one another, and the same log. -/
def Agree (R : Renaming) (ρ : String → String) (outer outer' : Scope) (x x' : Eval α) : Prop :=
  ∀ m m' : Machine, R.Scopes ρ (m.frame :: outer) (m'.frame :: outer') → m'.log = m.log →
    (x' m').1.mapError Failure.bare = (x m).1.mapError Failure.bare ∧
      R.Scopes ρ ((x m).2.frame :: outer) ((x' m').2.frame :: outer') ∧
      (x' m').2.log = (x m).2.log

namespace Agree

variable {x x' : Eval α}

/-- What leaves the machine alone. -/
theorem of_steady {r r' : Except Failure α} (hr : r'.mapError Failure.bare = r.mapError Failure.bare)
    (hx : ∀ m, x m = (r, m)) (hx' : ∀ m, x' m = (r', m)) : R.Agree ρ outer outer' x x' := by
  intro m m' hs hl
  rw [hx, hx']
  exact ⟨hr, hs, hl⟩

theorem pure (a : α) : R.Agree ρ outer outer' (Pure.pure a) (Pure.pure a) :=
  of_steady rfl (fun _ => rfl) fun _ => rfl

theorem ofExcept (r : Except Failure α) :
    R.Agree ρ outer outer' (Eval.ofExcept r) (Eval.ofExcept r) :=
  of_steady rfl (fun _ => rfl) fun _ => rfl

theorem failAt (cause : Cause) (s s' : Option Span) :
    R.Agree ρ outer outer' (Eval.failAt cause s : Eval α) (Eval.failAt cause s') := by
  intro m m' hs hl
  exact ⟨rfl, hs, hl⟩

theorem bind {f f' : α → Eval β} (hx : R.Agree ρ outer outer' x x')
    (hf : ∀ a, R.Agree ρ outer outer' (f a) (f' a)) :
    R.Agree ρ outer outer' (x >>= f) (x' >>= f') := by
  intro m m' hs hl
  obtain ⟨hr, hs₁, hl₁⟩ := hx m m' hs hl
  rw [bind_run, bind_run]
  rcases hxm : x m with ⟨e | a, m₁⟩ <;> rcases hxm' : x' m' with ⟨e' | a', m₁'⟩ <;>
    rw [hxm, hxm'] at hr hs₁ hl₁
  · have he : e'.bare = e.bare := by injection hr
    exact ⟨congrArg Except.error he, hs₁, hl₁⟩
  · cases hr
  · cases hr
  · cases hr
    exact hf a m₁ m₁' hs₁ hl₁

theorem located {s s' : Option Span} (hx : R.Agree ρ outer outer' x x') :
    R.Agree ρ outer outer' (Eval.located s x) (Eval.located s' x') := by
  have hbare : ∀ (t : Option Span) (r : Except Failure α),
      (r.mapError (Failure.locate t)).mapError Failure.bare = r.mapError Failure.bare := by
    intro t r
    cases r <;> simp [Except.mapError]
  intro m m' hs hl
  obtain ⟨hr, hrest⟩ := hx m m' hs hl
  rw [located_run, located_run]
  exact ⟨(hbare s' _).trans (hr.trans (hbare s _).symm), hrest⟩

theorem mapM {Q : α → α → Prop} {f f' : α → Eval β} {xs xs' : List α}
    (hf : ∀ a a', Q a a' → R.Agree ρ outer outer' (f a) (f' a')) (h : List.Forall₂ Q xs xs') :
    R.Agree ρ outer outer' (xs.mapM f) (xs'.mapM f') := by
  induction h with
  | nil => exact pure _
  | cons ha _ ih =>
    rw [List.mapM_cons, List.mapM_cons]
    exact (hf _ _ ha).bind fun _ => ih.bind fun _ => pure _

variable {ev ev' : Node → Eval Result} {n n' : Node}

theorem valueOf (h : R.Agree ρ outer outer' (ev n) (ev' n')) :
    R.Agree ρ outer outer' (Eval.valueOf ev n) (Eval.valueOf ev' n') := by
  refine h.bind fun r => ?_
  cases r with
  | single v => exact pure v
  | nothing => exact failAt _ _ _
  | compound vs => exact failAt _ _ _

theorem cell (h : R.Agree ρ outer outer' (ev n) (ev' n')) :
    R.Agree ρ outer outer' (Eval.cell ev n) (Eval.cell ev' n') := by
  refine (valueOf h).bind fun v => ?_
  cases v.number? with
  | some x => exact pure x
  | none => exact failAt _ _ _

theorem var {x : String} (hx : x ∈ R.names) (s s' : Option Span)
    {ev ev' : Scope → Node → Eval Result} :
    R.Agree ρ outer outer' (Eval.step ev outer (.var x s)) (Eval.step ev' outer' (.var (ρ x) s')) := by
  intro m m' hs hl
  obtain ⟨hfind, hfree⟩ := hs.findVariable? hx
  rw [Eval.step, Eval.step, bind_run_ok (get_run m), bind_run_ok (get_run m'), hfind]
  cases hv : Scope.findVariable? (m.frame :: outer) x with
  | some v => exact ⟨rfl, hs, hl⟩
  | none =>
    -- A name that nothing binds is reported under the same name.
    rw [hfree hv]
    exact ⟨rfl, hs, hl⟩

theorem assign {x : String} (hx : x ∈ R.names) (v : Value) :
    R.Agree ρ outer outer'
      (modify fun m => { m with frame := m.frame.assign x v })
      (modify fun m => { m with frame := m.frame.assign (ρ x) v }) := by
  intro m m' hs hl
  exact ⟨rfl, hs.assign hx v, hl⟩

theorem define {σ : String → String} {f : String} {ps ps' : List Identifier} {cs cs' : List Node}
    (hps : R.Rebinds ρ σ (ps.map Identifier.name) (ps'.map Identifier.name))
    (hcs : R.Lists σ cs cs') (bs bs' s s' : Option Span) {ev ev' : Scope → Node → Eval Result} :
    R.Agree ρ outer outer' (Eval.step ev outer (.define f ps cs bs s))
      (Eval.step ev' outer' (.define f ps' cs' bs' s')) := by
  intro m m' hs hl
  have hfunction : R.Functions ρ (.user _ cs bs) (.user _ cs' bs') := .user hps hcs
  have hscope := hs.define f hfunction
  have hlen : ps'.length = ps.length := by
    have h := congrArg List.length hps.params
    simpa using h
  have hname : m'.frame.name = m.frame.name := by
    cases hs with
    | cons hf _ _ => exact hf.name
  refine ⟨rfl, hscope, ?_⟩
  show Event.defined f ps'.length m'.frame.name :: m'.log =
    Event.defined f ps.length m.frame.name :: m.log
  rw [hlen, hname, hl]

/-- A call gives the same, if bodies do. -/
theorem call {ev ev' : Scope → Node → Eval Result}
    (hev : ∀ σ home home' n n', R.Nodes σ n n' → R.Agree σ home home' (ev home n) (ev' home' n'))
    (name : String) (args : List Value) (s s' : Option Span) :
    R.Agree ρ outer outer' (Eval.call ev outer name args s) (Eval.call ev' outer' name args s') := by
  intro m m' hs hl
  rw [call_frame, call_frame]
  rcases hs.findFunction? name with ⟨hnone, hnone'⟩ | ⟨τ, g, g', home, home', hg, hg', hgg, hhome⟩
  · rw [call_undefined hnone, call_undefined hnone']
    exact ⟨rfl, hs, hl⟩
  · by_cases harity : args.length = g.arity
    · cases hgg with
      | @native b =>
        obtain ⟨v, rfl⟩ := List.length_eq_one_iff.1 harity
        rw [call_native hg, call_native hg']
        exact ⟨rfl, hs, congrArg (Event.nativeCalled name :: ·) hl⟩
      | @user σ ps ps' cs cs' bs bs' hps hcs =>
        have hlen : ps'.length = ps.length := by rw [hps.params, List.length_map]
        have hblock : R.Nodes σ (.block cs bs) (.block cs' bs') := .block hcs
        have hbody := hev σ home home' _ _ hblock
          (entered name ps args home m.log) (entered name ps' args home' m'.log)
          (hhome.enter hps harity name)
          (by simp only [entered, hlen, hhome.length_eq, hl])
        rw [call_user hg harity, call_user hg' (harity.trans hlen.symm)]
        obtain ⟨hr, -, hlog⟩ := hbody
        refine ⟨mapError_bind hr fun r => ?_, hs, hlog⟩
        unfold returned
        cases r.values.getLast? <;> rfl
    · rw [call_arity hg harity, call_arity hg' (hgg.arity ▸ harity), hgg.arity]
      exact ⟨rfl, hs, hl⟩

/-- One step, for any node and its copy. -/
theorem step {ev ev' : Scope → Node → Eval Result}
    (hev : ∀ σ home home' n n', R.Nodes σ n n' → R.Agree σ home home' (ev home n) (ev' home' n'))
    {n n' : Node} (h : R.Nodes ρ n n') :
    R.Agree ρ outer outer' (Eval.step ev outer n) (Eval.step ev' outer' n') := by
  have hin : ∀ e e', R.Nodes ρ e e' → R.Agree ρ outer outer' (ev outer e) (ev' outer' e') :=
    hev ρ outer outer'
  cases h with
  | empty => exact pure _
  | literal => exact pure _
  | var hx => exact var hx _ _
  | unary he => exact (valueOf (hin _ _ he)).bind fun _ => (ofExcept _).bind fun _ => pure _
  | binary hl hr =>
    exact (valueOf (hin _ _ hl)).bind fun _ => (valueOf (hin _ _ hr)).bind fun _ =>
      (ofExcept _).bind fun _ => pure _
  | ternary hc hy hn =>
    refine (valueOf (hin _ _ hc)).bind fun v => ?_
    cases v with
    | boolean b =>
      refine (valueOf (hin _ _ ?_)).bind fun _ => pure _
      cases b
      · exact hn
      · exact hy
    | number x unit => exact failAt _ _ _
    | matrix m => exact failAt _ _ _
  | matrix hrows =>
    refine (mapM (fun row row' hrow => ?_) ((rows_iff R).1 hrows)).bind fun _ =>
      (ofExcept _).bind fun _ => pure _
    exact mapM (fun e e' he => cell (hin e e' he)) hrow
  | call hargs =>
    exact (mapM (fun e e' he => valueOf (hin e e' he)) ((lists_iff R).1 hargs)).bind fun _ =>
      (call hev _ _ _ _).bind fun _ => pure _
  | assign ht htarget he =>
    refine (valueOf (hin _ _ he)).bind fun v => Agree.bind ?_ fun _ => pure _
    rw [htarget]
    exact assign ht v
  | block hcs => exact (mapM hin ((lists_iff R).1 hcs)).bind fun _ => pure _
  | define hps hcs => exact define hps hcs _ _ _ _

end Agree

/-- **Names and spans do not matter to evaluation**: a node and its copy agree, in every scope and its
copy. -/
theorem eval_agree (R : Renaming) (depth : Nat) {n n' : Node} (h : R.Nodes ρ n n') :
    R.Agree ρ outer outer' (eval depth outer n) (eval depth outer' n') := by
  induction depth generalizing ρ outer outer' n n' with
  | zero => exact .of_steady (r := .error (.mishap .tooDeep)) rfl (fun _ => rfl) fun _ => rfl
  | succ depth ih =>
    rw [eval, eval]
    exact (Agree.step (fun _ _ _ _ _ h => ih h) h).located

end Renaming

end Reckon
