import Reckon.Proofs.Scope.Shared

/-!
# Calls are pure

A call changes no frame that was there before it, whatever the function does and whether the call
returns or fails: its body writes to the frame of the call, and the calls in the body to frames that
are younger still.  So the evaluation of an expression, which neither assigns nor defines, changes no
frame at all, and a second evaluation gives what the first one gave.

For the second evaluation one more thing is needed: the log has grown meanwhile, and no result depends
on it (`Alike`).
-/

namespace Reckon

/-! ## Expressions -/

namespace Node

mutual

/-- Nothing in the tree assigns or defines. -/
def isExpression : Node → Bool
  | empty _ | literal _ _ | var _ _ => true
  | unary _ e _ => e.isExpression
  | binary l _ r _ => l.isExpression && r.isExpression
  | ternary c y n _ => c.isExpression && y.isExpression && n.isExpression
  | matrix rows _ => areExpressionRows rows
  | call _ args _ => areExpressions args
  | block children _ => areExpressions children
  | assign _ _ _ | define _ _ _ _ _ => false

/-- Nothing in the trees assigns or defines. -/
def areExpressions : List Node → Bool
  | [] => true
  | n :: rest => n.isExpression && areExpressions rest

/-- Nothing in the rows assigns or defines. -/
def areExpressionRows : List (List Node) → Bool
  | [] => true
  | row :: rest => areExpressions row && areExpressionRows rest

end

theorem areExpressions_iff {ns : List Node} :
    areExpressions ns = true ↔ ∀ n ∈ ns, n.isExpression = true := by
  induction ns with
  | nil => simp [areExpressions]
  | cons n rest ih => simp [areExpressions, ih]

theorem areExpressionRows_iff {rows : List (List Node)} :
    areExpressionRows rows = true ↔ ∀ row ∈ rows, ∀ n ∈ row, n.isExpression = true := by
  induction rows with
  | nil => simp [areExpressionRows]
  | cons row rest ih => simp [areExpressionRows, areExpressions_iff, ih]

end Node

/-! ## No result depends on the log -/

namespace Eval

variable {α β : Type} {P : Frame → Prop}

/-- In machines with the same frame, which satisfies `P`, the evaluation gives the same result and
leaves the same frame, which satisfies `P` again. -/
def Alike (P : Frame → Prop) (x : Eval α) : Prop :=
  ∀ m m' : Machine, m.frame = m'.frame → P m.frame →
    (x m).1 = (x m').1 ∧ (x m).2.frame = (x m').2.frame ∧ P (x m).2.frame

namespace Alike

variable {x : Eval α}

theorem pure (a : α) : Alike P (Pure.pure a) :=
  fun _ _ hf hp => ⟨rfl, hf, hp⟩

theorem failAt (cause : Cause) (span : Option Span) : Alike P (Eval.failAt cause span : Eval α) :=
  fun _ _ hf hp => ⟨rfl, hf, hp⟩

theorem ofExcept (r : Except Failure α) : Alike P (Eval.ofExcept r) :=
  fun _ _ hf hp => ⟨rfl, hf, hp⟩

theorem bind {f : α → Eval β} (hx : Alike P x) (hf : ∀ a, Alike P (f a)) : Alike P (x >>= f) := by
  intro m m' hm hp
  obtain ⟨hr, hframe, hp'⟩ := hx m m' hm hp
  rw [bind_run, bind_run]
  rcases hxm : x m with ⟨e | a, m₁⟩ <;> rcases hxm' : x m' with ⟨e' | a', m₁'⟩ <;>
    rw [hxm, hxm'] at hr hframe <;> rw [hxm] at hp' <;> cases hr
  · exact ⟨rfl, hframe, hp'⟩
  · exact hf a m₁ m₁' hframe hp'

theorem located {span : Option Span} (hx : Alike P x) : Alike P (Eval.located span x) := by
  intro m m' hm hp
  obtain ⟨hr, hframe⟩ := hx m m' hm hp
  rw [located_run, located_run, hr]
  exact ⟨rfl, hframe⟩

theorem mapM {f : α → Eval β} {xs : List α} (hf : ∀ a ∈ xs, Alike P (f a)) : Alike P (xs.mapM f) := by
  induction xs with
  | nil => exact pure _
  | cons a xs ih =>
    rw [List.mapM_cons]
    exact (hf a List.mem_cons_self).bind fun _ =>
      (ih fun b hb => hf b (List.mem_cons_of_mem a hb)).bind fun _ => pure _

variable {ev : Node → Eval Result} {node : Node}

theorem valueOf (h : Alike P (ev node)) : Alike P (Eval.valueOf ev node) := by
  refine h.bind fun r => ?_
  cases r with
  | single v => exact pure v
  | nothing => exact failAt _ _
  | compound vs => exact failAt _ _

theorem cell (h : Alike P (ev node)) : Alike P (Eval.cell ev node) := by
  refine (valueOf h).bind fun v => ?_
  cases hv : v.number? with
  | some x => exact pure x
  | none => exact failAt _ _

/-- A call has its frame back; what it gives depends on the body, and that not on the log. -/
theorem call {ev : Scope → Node → Eval Result}
    (hev : ∀ outer node, Alike (fun _ => True) (ev outer node)) (outer : Scope) (name : String)
    (args : List Value) (span : Option Span) : Alike P (Eval.call ev outer name args span) := by
  intro m m' hm hp
  have hframe : (Eval.call ev outer name args span m).2.frame =
      (Eval.call ev outer name args span m').2.frame := by
    rw [call_frame, call_frame, hm]
  have hp' : P (Eval.call ev outer name args span m).2.frame := by
    rw [call_frame]
    exact hp
  refine ⟨?_, hframe, hp'⟩
  cases hfound : Scope.findFunction? (m.frame :: outer) name with
  | none => rw [call_undefined hfound, call_undefined (hm ▸ hfound)]
  | some found =>
    obtain ⟨function, home⟩ := found
    by_cases harity : args.length = function.arity
    · cases function with
      | native b =>
        obtain ⟨v, rfl⟩ := List.length_eq_one_iff.1 harity
        rw [call_native hfound, call_native (hm ▸ hfound)]
      | user params body bodySpan =>
        rw [call_user hfound harity, call_user (hm ▸ hfound) harity]
        have hbody := hev home (.block body bodySpan) (entered name params args home m.log)
          (entered name params args home m'.log) rfl trivial
        rw [hbody.1]
    · rw [call_arity hfound harity, call_arity (hm ▸ hfound) harity]

end Alike

/-- Expressions keep the frame, whatever it satisfies; other nodes keep what every frame satisfies. -/
theorem eval_alike (depth : Nat) (outer : Scope) (node : Node)
    (h : node.isExpression = true ∨ ∀ f, P f) : Alike P (eval depth outer node) := by
  induction depth generalizing outer node P with
  | zero => exact fun _ _ hf hp => ⟨rfl, hf, hp⟩
  | succ depth ih =>
    rw [eval]
    refine Alike.located ?_
    -- What is part of an expression is one.
    cases node with
    | literal v span => exact .pure _
    | empty span => exact .pure _
    | var name span =>
      intro m m' hm hp
      rw [step, bind_run_ok (get_run m), bind_run_ok (get_run m'), hm]
      cases Scope.findVariable? (m'.frame :: outer) name <;> exact ⟨rfl, hm, hp⟩
    | unary op e span =>
      exact (Alike.valueOf (ih outer e h)).bind fun _ => (Alike.ofExcept _).bind fun _ => .pure _
    | binary l op r span =>
      rw [Node.isExpression, Bool.and_eq_true] at h
      exact (Alike.valueOf (ih outer l (h.imp_left And.left))).bind fun _ =>
        (Alike.valueOf (ih outer r (h.imp_left And.right))).bind fun _ =>
          (Alike.ofExcept _).bind fun _ => .pure _
    | ternary c y n span =>
      rw [Node.isExpression, Bool.and_eq_true, Bool.and_eq_true] at h
      refine (Alike.valueOf (ih outer c (h.imp_left fun h => h.1.1))).bind fun v => ?_
      cases v with
      | boolean b =>
        refine (Alike.valueOf (ih outer _ ?_)).bind fun _ => .pure _
        cases b
        · exact h.imp_left And.right
        · exact h.imp_left fun h => h.1.2
      | number x unit => exact .failAt _ _
      | matrix m => exact .failAt _ _
    | matrix rows span =>
      rw [Node.isExpression, Node.areExpressionRows_iff] at h
      refine Alike.bind (.mapM fun row hrow => .mapM fun e he => .cell (ih outer e ?_)) fun _ =>
        (Alike.ofExcept _).bind fun _ => .pure _
      exact h.imp_left fun h => h row hrow e he
    | call name args span =>
      rw [Node.isExpression, Node.areExpressions_iff] at h
      refine Alike.bind (.mapM fun e he => .valueOf (ih outer e (h.imp_left fun h => h e he)))
        fun vs => Alike.bind ?_ fun _ => .pure _
      exact .call (fun outer node => ih outer node (.inr fun _ => trivial)) outer name vs span
    | assign target e span =>
      have hP : ∀ f, P f := h.resolve_left (by simp [Node.isExpression])
      refine (Alike.valueOf (ih outer e (.inr hP))).bind fun v => Alike.bind ?_ fun _ => .pure _
      intro m m' hm _
      exact ⟨rfl, by rw [modify_run, modify_run, hm], hP _⟩
    | block children span =>
      rw [Node.isExpression, Node.areExpressions_iff] at h
      exact Alike.bind (.mapM fun e he => ih outer e (h.imp_left fun h => h e he)) fun _ => .pure _
    | define name params body bodySpan span =>
      have hP : ∀ f, P f := h.resolve_left (by simp [Node.isExpression])
      intro m m' hm _
      refine ⟨rfl, ?_, hP _⟩
      show (Frame.define m.frame _ _) = Frame.define m'.frame _ _
      rw [hm]

/-- An expression leaves the frame as it was. -/
theorem eval_frame {node : Node} (h : node.isExpression = true) (depth : Nat) (outer : Scope)
    (m : Machine) : (eval depth outer node m).2.frame = m.frame :=
  (eval_alike (P := (· = m.frame)) depth outer node (.inl h) m m rfl rfl).2.2

/-- In the same frame a node gives the same result, whatever was logged before. -/
theorem eval_result (depth : Nat) (outer : Scope) (node : Node) (m m' : Machine)
    (hm : m.frame = m'.frame) : (eval depth outer node m).1 = (eval depth outer node m').1 :=
  (eval_alike (P := fun _ => True) depth outer node (.inr fun _ => trivial) m m' hm trivial).1

end Eval

/-! ## Purity -/

theorem ScopeTree.setFrame_self (t : ScopeTree) (i : Nat) : t.setFrame i (t.frame i) = t := by
  obtain ⟨entries⟩ := t
  refine congrArg ScopeTree.mk (List.ext_getElem? fun k => ?_)
  refine (entries_setFrame ⟨entries⟩ i k (frame ⟨entries⟩ i)).trans ?_
  cases he : entries[k]? with
  | none => rfl
  | some e =>
    rw [Option.map_some]
    split
    · rename_i hk
      rw [frame_some (hk ▸ he)]
    · rfl

/-- A call made in a frame of a tree leaves the tree as it was. -/
theorem ScopeTree.call_tree (t : ScopeTree) (i : Nat) (name : String) (args : List Value) :
    (t.call i name args).2 = t := by
  show t.setFrame i (Eval.invoke (t.outer i) name args ⟨t.frame i, []⟩).2.frame = t
  rw [Eval.invoke, Eval.call_frame]
  exact t.setFrame_self i

namespace Shared

open ScopeTree (Spares)

/-- A call spares every frame that was there before. -/
theorem call_evalAt_spares (depth i : Nat) (name : String) (args : List Value) (span : Option Span)
    (s : Store) : Spares s.tree (call (evalAt depth) i name args span s).2.tree :=
  (call_spares (fun j node s => (evalAt_follows depth j [] node).grows s) i name args span s).1

/-- An expression spares every frame, and gives the same result again. -/
theorem evalAt_expression {node : Node} (h : node.isExpression = true) (depth : Nat) {i : Nat}
    {s : Store} (ht : s.tree.Ordered) (hi : i < s.tree.entries.length) :
    Spares s.tree (evalAt depth i node s).2.tree ∧
      (evalAt depth i node (evalAt depth i node s).2).1 = (evalAt depth i node s).1 := by
  have hf := evalAt_follows depth i (s.tree.outer i) node
  have hgrows := hf.grows s
  have hfirst := hf.agrees s ht hi rfl
  have hsecond := hf.agrees (evalAt depth i node s).2 (hgrows.ordered ht) (hgrows.lt_length hi)
    (hgrows.outer_eq ht hi)
  -- The frame itself is kept because the evaluation with the frame as state keeps it.
  have hframe : (evalAt depth i node s).2.tree.frame i = s.tree.frame i := by
    have hkeep := Eval.eval_frame h depth (s.tree.outer i) ⟨s.tree.frame i, s.log⟩
    rw [hfirst] at hkeep
    exact hkeep
  constructor
  · have hspares := hgrows.spares_setFrame
    rw [hframe, ScopeTree.setFrame_self] at hspares
    exact hspares
  · have hresult := Eval.eval_result depth (s.tree.outer i) node
      ⟨(evalAt depth i node s).2.tree.frame i, (evalAt depth i node s).2.log⟩
      ⟨s.tree.frame i, s.log⟩ hframe
    rw [hsecond, hfirst] at hresult
    exact hresult

end Shared

/-- **Calls are pure.**  A call changes no frame that was there before it: with shared frames it spares
them all, and that evaluation follows the one with the frame as state, which has its frame back after
the call; a call made in a frame of a tree leaves the tree as it was.  So an expression changes no
frame, and evaluated again it gives the same result. -/
theorem call_pure (depth : Nat) :
    (∀ i name args span s, ScopeTree.Spares s.tree
      (Shared.call (Shared.evalAt depth) i name args span s).2.tree) ∧
    (∀ i outer name args span, Shared.Follows i outer
      (Shared.call (Shared.evalAt depth) i name args span)
      (Eval.call (Eval.eval depth) outer name args span)) ∧
    (∀ outer name args span m,
      (Eval.call (Eval.eval depth) outer name args span m).2.frame = m.frame) ∧
    (∀ t i name args, (ScopeTree.call t i name args).2 = t) ∧
    (∀ node : Node, node.isExpression = true →
      (∀ outer m, (Eval.eval depth outer node m).2.frame = m.frame ∧
        (Eval.eval depth outer node (Eval.eval depth outer node m).2).1 =
          (Eval.eval depth outer node m).1) ∧
      (∀ i s, s.tree.Ordered → i < s.tree.entries.length →
        ScopeTree.Spares s.tree (Shared.evalAt depth i node s).2.tree ∧
        (Shared.evalAt depth i node (Shared.evalAt depth i node s).2).1 =
          (Shared.evalAt depth i node s).1)) := by
  refine ⟨?_, ?_, ?_, ScopeTree.call_tree, fun node hnode => ⟨?_, ?_⟩⟩
  · exact Shared.call_evalAt_spares depth
  · intro i outer name args span
    exact .call (fun j outer node => Shared.evalAt_follows depth j outer node) name args span
  · exact Eval.call_frame _
  · intro outer m
    have hframe := Eval.eval_frame hnode depth outer m
    exact ⟨hframe, Eval.eval_result depth outer node _ m hframe⟩
  · intro i s ht hi
    exact Shared.evalAt_expression hnode depth ht hi

/-- A function that assigns to `y` leaves the `y` of its caller alone. -/
theorem call_pure_shadowing :
    ∃ (t : ScopeTree) (node : Node), node.isExpression = true ∧ t.Ordered ∧
      ScopeTree.Spares t (Shared.evalAt 9 0 node ⟨t, []⟩).2.tree ∧
      (Shared.evalAt 9 0 node ⟨t, []⟩).1 = .ok (.single (.boolean false)) ∧
      t.local? 0 "y" = some (.boolean true) := by
  let body := [Node.assign ⟨"y", none⟩ (.unary .not (.var "x" none) none) none]
  let t := ScopeTree.root
    { vars := [("y", .boolean true)], functions := [("f", .user ["x"] body none)] }
  let node := Node.call "f" [.var "y" none] none
  have ht : t.Ordered := by
    intro k e he p hp
    match k, he with
    | 0, he =>
      cases he
      cases hp
  have h := ((call_pure 9).2.2.2.2 node rfl).2 0 ⟨t, []⟩ ht (by decide)
  exact ⟨t, node, rfl, ht, h.1, rfl, rfl⟩

end Reckon
