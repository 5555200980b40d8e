import Mathlib.Logic.Relation
import Reckon.Proofs.Eval.Run
import Reckon.Proofs.Value.Undefined

/-!
# Where an evaluation breaks off

While it runs, an evaluation starts others, each at a machine that the earlier ones left (`Starts`):
operands from left to right, the branch that the condition chose, cells row by row, arguments and then
the body of the called function, statements in order.  These are all that it starts: an evaluator that
does the same at them makes the same step (`Visit.step_agree`).

An evaluation ends in a mishap other than running out of depth exactly if it comes to an operator with
operands for which it is undefined (`Visit.ends_iff_visits`).  Nothing else breaks off, and nothing
stops a break-off on its way out.
-/

namespace Reckon

open Eval

/-- An evaluation about to run. -/
structure Visit where
  depth : Nat
  outer : Scope
  node : Node
  machine : Machine

namespace Visit

/-- The second evaluation is started by the first one while it runs.  What the first one does depends
on no other evaluation (`step_agree`). -/
inductive Starts : Visit → Visit → Prop where
  | left {d : Nat} {outer : Scope} {l r : Node} {op : BinaryOp} {span : Option Span} {m : Machine} :
      Starts ⟨d + 1, outer, .binary l op r span, m⟩ ⟨d, outer, l, m⟩
  | right {d : Nat} {outer : Scope} {l r : Node} {op : BinaryOp} {span : Option Span}
      {m m₁ : Machine} {x : Value} (hl : valueOf (eval d outer) l m = (.ok x, m₁)) :
      Starts ⟨d + 1, outer, .binary l op r span, m⟩ ⟨d, outer, r, m₁⟩
  | operand {d : Nat} {outer : Scope} {e : Node} {op : UnaryOp} {span : Option Span} {m : Machine} :
      Starts ⟨d + 1, outer, .unary op e span, m⟩ ⟨d, outer, e, m⟩
  | condition {d : Nat} {outer : Scope} {c y n : Node} {span : Option Span} {m : Machine} :
      Starts ⟨d + 1, outer, .ternary c y n span, m⟩ ⟨d, outer, c, m⟩
  | branch {d : Nat} {outer : Scope} {c y n : Node} {span : Option Span} {m m₁ : Machine} {b : Bool}
      (hc : valueOf (eval d outer) c m = (.ok (.boolean b), m₁)) :
      Starts ⟨d + 1, outer, .ternary c y n span, m⟩ ⟨d, outer, if b then y else n, m₁⟩
  | cell {d : Nat} {outer : Scope} {rows rows' : List (List Node)} {cells cells' : List Node}
      {e : Node} {span : Option Span} {m m₁ m₂ : Machine} {xss : List (List Float)} {xs : List Float}
      (hrows : rows.mapM (fun row => row.mapM (Eval.cell (eval d outer))) m = (.ok xss, m₁))
      (hcells : cells.mapM (Eval.cell (eval d outer)) m₁ = (.ok xs, m₂)) :
      Starts ⟨d + 1, outer, .matrix (rows ++ (cells ++ e :: cells') :: rows') span, m⟩
        ⟨d, outer, e, m₂⟩
  | argument {d : Nat} {outer : Scope} {name : String} {args args' : List Node} {e : Node}
      {span : Option Span} {m m₁ : Machine} {vs : List Value}
      (hargs : args.mapM (valueOf (eval d outer)) m = (.ok vs, m₁)) :
      Starts ⟨d + 1, outer, .call name (args ++ e :: args') span, m⟩ ⟨d, outer, e, m₁⟩
  | body {d : Nat} {outer home : Scope} {name : String} {args : List Node} {span : Option Span}
      {m m₁ : Machine} {vs : List Value} {params : List String} {body : List Node}
      {bodySpan : Option Span} (hargs : args.mapM (valueOf (eval d outer)) m = (.ok vs, m₁))
      (hfound : Scope.findFunction? (m₁.frame :: outer) name = some (.user params body bodySpan, home))
      (harity : vs.length = params.length) :
      Starts ⟨d + 1, outer, .call name args span, m⟩
        ⟨d, home, .block body bodySpan, entered name params vs home m₁.log⟩
  | value {d : Nat} {outer : Scope} {target : Identifier} {e : Node} {span : Option Span}
      {m : Machine} : Starts ⟨d + 1, outer, .assign target e span, m⟩ ⟨d, outer, e, m⟩
  | child {d : Nat} {outer : Scope} {done rest : List Node} {e : Node} {span : Option Span}
      {m m₁ : Machine} {rs : List Result} (hdone : done.mapM (eval d outer) m = (.ok rs, m₁)) :
      Starts ⟨d + 1, outer, .block (done ++ e :: rest) span, m⟩ ⟨d, outer, e, m₁⟩

/-- The evaluation comes to an operator that is undefined for its operands. -/
inductive Breaks (c : Mishap) : Visit → Prop where
  | operator {d : Nat} {outer : Scope} {l r : Node} {op : BinaryOp} {span : Option Span}
      {m m₁ m₂ : Machine} {x y : Value} (hl : valueOf (eval d outer) l m = (.ok x, m₁))
      (hr : valueOf (eval d outer) r m₁ = (.ok y, m₂)) (undefined : op.Undefined x y c) :
      Breaks c ⟨d + 1, outer, .binary l op r span, m⟩

/-- The evaluation ends in this mishap. -/
def Ends (c : Mishap) (v : Visit) : Prop :=
  Eval.Ends c (eval v.depth v.outer v.node) v.machine

variable {c : Mishap} {v w : Visit}

theorem Starts.depth_lt (h : Starts v w) : w.depth < v.depth := by
  cases h <;> exact Nat.lt_succ_self _

/-! ## The step of an evaluation -/

/-- A step needs of the evaluator only what it does at the evaluations that the step starts. -/
theorem step_agree {ev : Scope → Node → Eval Result} {d : Nat} {outer : Scope} {node : Node}
    {m : Machine} (h : ∀ w, Starts ⟨d + 1, outer, node, m⟩ w →
      ev w.outer w.node w.machine = eval d w.outer w.node w.machine) :
    step ev outer node m = step (eval d) outer node m := by
  cases node with
  | literal v span => rfl
  | var x span => rfl
  | empty span => rfl
  | define name params body bodySpan span => rfl
  | unary op e span => exact bind_agree (valueOf_agree (h _ .operand)) fun _ _ _ => rfl
  | binary l op r span =>
    refine bind_agree (valueOf_agree (h _ .left)) fun x m₁ hl => ?_
    exact bind_agree (valueOf_agree (h _ (.right hl))) fun _ _ _ => rfl
  | ternary c y n span =>
    refine bind_agree (valueOf_agree (h _ .condition)) fun x m₁ hc => ?_
    cases x with
    | boolean b => exact bind_agree (valueOf_agree (h _ (.branch hc))) fun _ _ _ => rfl
    | number x unit => rfl
    | matrix x => rfl
  | matrix rows span =>
    refine bind_agree (mapM_agree ?_) fun _ _ _ => rfl
    rintro done row rest xss m₁ rfl hrows
    refine mapM_agree ?_
    rintro cells e cells' xs m₂ rfl hcells
    exact cell_agree (h _ (.cell hrows hcells))
  | call name args span =>
    refine bind_agree (mapM_agree ?_) fun vs m₁ hargs => ?_
    · rintro done e rest vs m₁ rfl hargs
      exact valueOf_agree (h _ (.argument hargs))
    · refine bind_agree (call_agree ?_) fun _ _ _ => rfl
      intro params body bodySpan home hfound harity
      exact h _ (.body hargs hfound harity)
  | assign target e span => exact bind_agree (valueOf_agree (h _ .value)) fun _ _ _ => rfl
  | block children span =>
    refine bind_agree (mapM_agree ?_) fun _ _ _ => rfl
    rintro done e rest rs m₁ rfl hdone
    exact h _ (.child hdone)

section Call

variable {ev : Scope → Node → Eval Result} {outer : Scope} {name : String} {args : List Value}
  {span : Option Span} {m : Machine}

/-- What a call gives of its body's values is no break-off. -/
theorem returned_mishap_iff {x : Except Failure Result} {bodySpan : Option Span} :
    x.bind (returned name bodySpan) = .error (.mishap c) ↔ x = .error (.mishap c) := by
  refine bind_eq_error_iff.trans ⟨fun h => h.resolve_right ?_, .inl⟩
  rintro ⟨r, -, h⟩
  unfold returned at h
  split at h <;> cases h

/-- A call breaks off only in the body of the function. -/
theorem ends_call : Eval.Ends c (Eval.call ev outer name args span) m ↔
    ∃ params body bodySpan home,
      Scope.findFunction? (m.frame :: outer) name = some (.user params body bodySpan, home) ∧
      args.length = params.length ∧
      Eval.Ends c (ev home (.block body bodySpan)) (entered name params args home m.log) := by
  constructor
  · intro h
    rcases call_cases ev outer name args span m with ⟨e, he⟩ | ⟨b, v, hb⟩ |
      ⟨params, body, bodySpan, home, hfound, harity⟩
    · unfold Eval.Ends at h
      rw [he] at h
      cases h
    · unfold Eval.Ends at h
      rw [hb] at h
      exact absurd h (Builtin.apply_ne_mishap b v c)
    · unfold Eval.Ends at h
      rw [call_user hfound harity] at h
      exact ⟨params, body, bodySpan, home, hfound, harity, returned_mishap_iff.1 h⟩
  · rintro ⟨params, body, bodySpan, home, hfound, harity, h⟩
    unfold Eval.Ends
    rw [call_user hfound harity]
    exact returned_mishap_iff.2 h

end Call

theorem ends_succ {d : Nat} {outer : Scope} {node : Node} {m : Machine} :
    Ends c ⟨d + 1, outer, node, m⟩ ↔ Eval.Ends c (step (eval d) outer node) m := by
  unfold Ends
  rw [eval]
  exact ends_located

theorem Breaks.ends (h : Breaks c v) : v.Ends c := by
  cases h with
  | operator hl hr hu =>
    rw [ends_succ, step, ends_bind]
    refine .inr ⟨_, _, hl, ?_⟩
    rw [ends_bind]
    refine .inr ⟨_, _, hr, ?_⟩
    rw [ends_bind_pure]
    exact BinaryOp.apply_mishap_iff.2 hu

/-- A mishap is passed on. -/
theorem Starts.ends (h : Starts v w) (hw : w.Ends c) : v.Ends c := by
  cases h with
  | left =>
    rw [ends_succ, step, ends_bind]
    exact .inl (ends_valueOf.2 hw)
  | right hl =>
    rw [ends_succ, step, ends_bind]
    exact .inr ⟨_, _, hl, ends_bind.2 (.inl (ends_valueOf.2 hw))⟩
  | operand =>
    rw [ends_succ, step, ends_bind]
    exact .inl (ends_valueOf.2 hw)
  | condition =>
    rw [ends_succ, step, ends_bind]
    exact .inl (ends_valueOf.2 hw)
  | branch hc =>
    rw [ends_succ, step, ends_bind]
    exact .inr ⟨_, _, hc, ends_bind_pure.2 (ends_valueOf.2 hw)⟩
  | cell hrows hcells =>
    rw [ends_succ, step, ends_bind, ends_mapM]
    refine .inl ⟨_, _, _, _, _, rfl, hrows, ?_⟩
    rw [ends_mapM]
    exact ⟨_, _, _, _, _, rfl, hcells, ends_cell.2 hw⟩
  | argument hargs =>
    rw [ends_succ, step, ends_bind, ends_mapM]
    exact .inl ⟨_, _, _, _, _, rfl, hargs, ends_valueOf.2 hw⟩
  | body hargs hfound harity =>
    rw [ends_succ, step, ends_bind]
    refine .inr ⟨_, _, hargs, ?_⟩
    rw [ends_bind_pure, ends_call]
    exact ⟨_, _, _, _, hfound, harity, hw⟩
  | value =>
    rw [ends_succ, step, ends_bind]
    exact .inl (ends_valueOf.2 hw)
  | child hdone =>
    rw [ends_succ, step, ends_bind_pure, ends_mapM]
    exact ⟨_, _, _, _, _, rfl, hdone, hw⟩

/-- A mishap comes from the evaluation itself or from one that it started. -/
theorem breaks_or_starts (hc : c ≠ .tooDeep) (h : v.Ends c) :
    v.Breaks c ∨ ∃ w, Starts v w ∧ w.Ends c := by
  obtain ⟨_ | d, outer, node, m⟩ := v
  · cases h
    exact absurd rfl hc
  rw [ends_succ] at h
  cases node with
  | literal v span => exact absurd h (not_ends_pure _)
  | empty span => exact absurd h (not_ends_pure _)
  | var x span =>
    rw [step, ends_bind] at h
    rcases h with h | ⟨m', _, ⟨⟩, h⟩
    · cases h
    · split at h <;> cases h
  | unary op e span =>
    rw [step, ends_bind, ends_valueOf] at h
    rcases h with h | ⟨x, m₁, -, h⟩
    · exact .inr ⟨_, .operand, h⟩
    · rw [ends_bind_pure, ends_ofExcept] at h
      exact absurd h (op.apply_ne_mishap x c)
  | binary l op r span =>
    rw [step, ends_bind, ends_valueOf] at h
    rcases h with h | ⟨x, m₁, hl, h⟩
    · exact .inr ⟨_, .left, h⟩
    · rw [ends_bind, ends_valueOf] at h
      rcases h with h | ⟨y, m₂, hr, h⟩
      · exact .inr ⟨_, .right hl, h⟩
      · rw [ends_bind_pure, ends_ofExcept, BinaryOp.apply_mishap_iff] at h
        exact .inl (.operator hl hr h)
  | ternary cond yes no span =>
    rw [step, ends_bind, ends_valueOf] at h
    rcases h with h | ⟨x, m₁, hx, h⟩
    · exact .inr ⟨_, .condition, h⟩
    · split at h
      · rw [ends_bind_pure, ends_valueOf] at h
        exact .inr ⟨_, .branch hx, h⟩
      · exact absurd h (not_ends_failAt _ _)
  | matrix rows span =>
    rw [step, ends_bind, ends_mapM] at h
    rcases h with ⟨done, row, rest, xss, m₁, rfl, hrows, h⟩ | ⟨xss, m₁, -, h⟩
    · obtain ⟨cells, e, cells', xs, m₂, rfl, hcells, he⟩ := ends_mapM.1 h
      exact .inr ⟨_, .cell hrows hcells, ends_cell.1 he⟩
    · rw [ends_bind_pure, ends_ofExcept] at h
      exact absurd h (Builtin.shaped_ne_mishap _ c)
  | call name args span =>
    rw [step, ends_bind, ends_mapM] at h
    rcases h with ⟨done, e, rest, vs, m₁, rfl, hargs, h⟩ | ⟨vs, m₁, hargs, h⟩
    · exact .inr ⟨_, .argument hargs, ends_valueOf.1 h⟩
    · rw [ends_bind_pure, ends_call] at h
      obtain ⟨params, body, bodySpan, home, hfound, harity, h⟩ := h
      exact .inr ⟨_, .body hargs hfound harity, h⟩
  | assign target e span =>
    rw [step, ends_bind, ends_valueOf] at h
    rcases h with h | ⟨x, m₁, -, h⟩
    · exact .inr ⟨_, .value, h⟩
    · cases h
  | block children span =>
    rw [step, ends_bind_pure, ends_mapM] at h
    obtain ⟨done, e, rest, rs, m₁, rfl, hdone, h⟩ := h
    exact .inr ⟨_, .child hdone, h⟩
  | define name params body bodySpan span => cases h

/-! ## Whole evaluations -/

/-- The second evaluation is met while the first one runs. -/
def Visits : Visit → Visit → Prop :=
  Relation.ReflTransGen Starts

/-- An evaluation ends in a mishap other than running out of depth exactly if it comes to an operator
that is undefined for its operands. -/
theorem ends_iff_visits (hc : c ≠ .tooDeep) : v.Ends c ↔ ∃ w, Visits v w ∧ w.Breaks c := by
  constructor
  · generalize hd : v.depth = d
    -- The evaluations that are started have less depth left.
    induction d using Nat.strongRecOn generalizing v with
    | ind d ih =>
      intro h
      rcases breaks_or_starts hc h with hb | ⟨w, hs, hw⟩
      · exact ⟨v, .refl, hb⟩
      · obtain ⟨u, hu, hb⟩ := ih w.depth (hd ▸ hs.depth_lt) rfl hw
        exact ⟨u, .head hs hu, hb⟩
  · rintro ⟨w, hv, hb⟩
    induction hv using Relation.ReflTransGen.head_induction_on with
    | refl => exact hb.ends
    | head hs _ ih => exact hs.ends ih

end Visit

end Reckon
