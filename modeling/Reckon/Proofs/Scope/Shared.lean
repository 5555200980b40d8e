import Reckon.Proofs.Eval.Run
import Reckon.Proofs.Scope.Chain

/-!
# Evaluation with shared frames

`Eval.eval` has the innermost frame as its state and the frames around it as an argument, so that it
could not change one of those if it wanted to.  Here evaluation has all frames of a tree as its state
and could write to any of them.  It knows a frame by its number: a node is evaluated in frame `i`,
assignments and definitions write there, and a call adds a frame to the tree, whose parent is the frame
that has the function, and evaluates the body in the new one.  Frames are never removed.

The two give the same results and leave the same frame behind (`evalAt_follows`).
-/

namespace Reckon.Shared

/-- What changes during an evaluation. -/
structure Store where
  tree : ScopeTree
  /-- What happened, the latest first. -/
  log : List Event

/-- Evaluations change a store and give a result or fail. -/
abbrev Action := ExceptT Failure (StateM Store)

/-- Records an event. -/
def note (e : Event) : Action Unit :=
  modify fun s => { s with log := e :: s.log }

/-- Gives an error without a place this one. -/
def located {α : Type} (span : Option Span) (x : Action α) : Action α :=
  ExceptT.adapt (Failure.locate span) x

/-- A computation that changes nothing. -/
def ofExcept {α : Type} (x : Except Failure α) : Action α :=
  ExceptT.mk (pure x)

/-- Fails with a cause at a place. -/
def failAt {α : Type} (cause : Cause) (span : Option Span) : Action α :=
  throw (.placed cause span)

/-- Changes a frame. -/
def write (i : Nat) (f : Frame → Frame) : Action Unit :=
  modify fun s => { s with tree := s.tree.setFrame i (f (s.tree.frame i)) }

/-- Adds a frame inside frame `home`; gives its number. -/
def openFrame (home : Nat) (name : String) : Action Nat := do
  let s ← get
  let (j, t) := s.tree.child home name
  set { s with tree := t }
  return j

/-- The value of a node that has to have one. -/
def valueOf (ev : Node → Action Result) (node : Node) : Action Value := do
  match ← ev node with
  | .single v => return v
  | _ => failAt (.evaluation .noValue) node.span

/-- Calls a function by name from frame `i`; `ev` evaluates a body in the frame of a number. -/
def call (ev : Nat → Node → Action Result) (i : Nat) (name : String) (args : List Value)
    (span : Option Span) : Action Value := do
  let s ← get
  match s.tree.findFunction i name with
  | .error _ => failAt (.undefinedFunction name) span
  | .ok (function, home) =>
    if args.length = function.arity then
      match function, args with
      | .native b, [v] => do
        note (.nativeCalled name)
        ofExcept (b.apply v)
      | .native _, _ => failAt (.arityMismatch name function.arity args.length) span
      | .user params body bodySpan, args => do
        let depth := (s.tree.path home).length
        note (.scopeOpened name depth)
        note (.called name params.length depth)
        let j ← openFrame home name
        write j fun f => f.bind params args
        let result ← ev j (.block body bodySpan)
        match result.values.getLast? with
        | some v => return v
        | none => failAt (.evaluation (.nothingReturned name)) bodySpan
    else failAt (.arityMismatch name function.arity args.length) span

/-- A matrix cell. -/
def cell (ev : Node → Action Result) (node : Node) : Action Float := do
  let v ← valueOf ev node
  match v.number? with
  | some x => return x
  | none => failAt (.evaluation (.elementKind v.kind)) node.span

/-- One step of evaluation in frame `i`. -/
def step (ev : Nat → Node → Action Result) (i : Nat) : Node → Action Result
  | .literal v _ => return .single v
  | .var name span => do
    let s ← get
    match (s.tree.scope i).findVariable? name with
    | some v => return .single v
    | none => failAt (.undeclaredVariable name) span
  | .binary left op right _ => do
    let x ← valueOf (ev i) left
    let y ← valueOf (ev i) right
    return .single (← ofExcept (op.apply x y))
  | .unary op operand _ => do
    let x ← valueOf (ev i) operand
    return .single (← ofExcept (op.apply x))
  | .ternary condition yes no _ => do
    match ← valueOf (ev i) condition with
    | .boolean b => return .single (← valueOf (ev i) (if b then yes else no))
    | v => failAt (.evaluation (.conditionKind v.kind)) condition.span
  | .matrix rows _ => do
    let cells ← rows.mapM fun row => row.mapM (cell (ev i))
    return .single (← ofExcept (Builtin.shaped (Matrix.ofRows? cells)))
  | .call name args span => do
    let vs ← args.mapM (valueOf (ev i))
    return .single (← call ev i name vs span)
  | .assign target value _ => do
    let v ← valueOf (ev i) value
    write i fun f => f.assign target.name v
    return .single v
  | .block children _ => do
    let results ← children.mapM (ev i)
    return .compound (results.flatMap Result.values)
  | .define name params body bodySpan _ => do
    let s ← get
    note (.defined name params.length (s.tree.frame i).name)
    write i fun f => f.define name (.user (params.map Identifier.name) body bodySpan)
    return .nothing
  | .empty _ => return .nothing

/-- Evaluates a node in frame `i`, at most so deep. -/
def evalAt : Nat → Nat → Node → Action Result
  | 0, _, _ => throw (.mishap .tooDeep)
  | depth + 1, i, node => located node.span (step (evalAt depth) i node)

/-! ## Calls -/

section Call

variable {ev : Nat → Node → Action Result} {i home : Nat} {name : String} {args : List Value}
  {span bodySpan : Option Span} {params : List String} {body : List Node} {s : Store}

/-- The store that the body of a function starts with: its frame is the last one of the tree. -/
def entered (s : Store) (home : Nat) (name : String) (params : List String) (args : List Value) :
    Store where
  tree := (s.tree.child home name).2.setFrame s.tree.entries.length
    (Frame.bind { name := name } params args)
  log := .called name params.length (s.tree.path home).length ::
    .scopeOpened name (s.tree.path home).length :: s.log

theorem frame_child (t : ScopeTree) (home : Nat) (name : String) :
    (t.child home name).2.frame t.entries.length = { name := name } :=
  ScopeTree.frame_some (t.entries_child home name)

theorem get_run (s : Store) : (get : Action Store) s = (.ok s, s) := rfl

theorem note_run (e : Event) (s : Store) : note e s = (.ok (), ⟨s.tree, e :: s.log⟩) := rfl

theorem openFrame_run (home : Nat) (name : String) (s : Store) :
    openFrame home name s = (.ok s.tree.entries.length, ⟨(s.tree.child home name).2, s.log⟩) := rfl

theorem call_undefined {e : Failure} (hfound : s.tree.findFunction i name = .error e) :
    call ev i name args span s = (.error (.placed (.undefinedFunction name) span), s) := by
  unfold call
  rw [Eval.bind_run_ok (get_run s), hfound]
  rfl

theorem call_arity {function : Function} (hfound : s.tree.findFunction i name = .ok (function, home))
    (harity : args.length ≠ function.arity) :
    call ev i name args span s =
      (.error (.placed (.arityMismatch name function.arity args.length) span), s) := by
  unfold call
  rw [Eval.bind_run_ok (get_run s), hfound]
  dsimp only
  rw [if_neg harity]
  rfl

theorem call_native {b : Builtin} {v : Value}
    (hfound : s.tree.findFunction i name = .ok (.native b, home)) :
    call ev i name [v] span s = (b.apply v, { s with log := .nativeCalled name :: s.log }) := by
  unfold call
  rw [Eval.bind_run_ok (get_run s), hfound]
  rfl

/-- A call of a function of the program runs its body in a new frame. -/
theorem call_user (hfound : s.tree.findFunction i name = .ok (.user params body bodySpan, home))
    (harity : args.length = params.length) :
    call ev i name args span s =
      ((ev s.tree.entries.length (.block body bodySpan) (entered s home name params args)).1.bind
          (Eval.returned name bodySpan),
        (ev s.tree.entries.length (.block body bodySpan) (entered s home name params args)).2) := by
  have hpos : args.length = (Function.user params body bodySpan).arity := harity
  have hwrite : write s.tree.entries.length (fun f => f.bind params args)
      ⟨(s.tree.child home name).2, .called name params.length (s.tree.path home).length ::
        .scopeOpened name (s.tree.path home).length :: s.log⟩ =
        (.ok (), entered s home name params args) := by
    show (Except.ok (), Store.mk _ _) = (.ok (), entered s home name params args)
    rw [frame_child]
    rfl
  unfold call
  rw [Eval.bind_run_ok (get_run s), hfound]
  dsimp only
  rw [if_pos hpos, Eval.bind_run_ok (note_run _ _), Eval.bind_run_ok (note_run _ _),
    Eval.bind_run_ok (openFrame_run _ _ _)]
  dsimp only
  rw [Eval.bind_run_ok hwrite, Eval.bind_run]
  rcases ev s.tree.entries.length (.block body bodySpan) (entered s home name params args) with
    ⟨e | r, s₁⟩
  · rfl
  · unfold Eval.returned
    simp only [Except.bind]
    cases r.values.getLast? <;> rfl

end Call

open ScopeTree (Extends Spares)

/-- A call writes to no frame that was there before. -/
theorem call_spares {ev : Nat → Node → Action Result}
    (hev : ∀ j node s, Extends j s.tree (ev j node s).2.tree) (i : Nat) (name : String)
    (args : List Value) (span : Option Span) (s : Store) :
    Spares s.tree (call ev i name args span s).2.tree ∧
      (s.tree.Ordered → (call ev i name args span s).2.tree.Ordered) := by
  cases hfound : s.tree.findFunction i name with
  | error e =>
    rw [call_undefined hfound]
    exact ⟨.refl _, id⟩
  | ok found =>
    obtain ⟨function, home⟩ := found
    by_cases harity : args.length = function.arity
    · cases function with
      | native b =>
        obtain ⟨v, rfl⟩ := List.length_eq_one_iff.1 harity
        rw [call_native hfound]
        exact ⟨.refl _, id⟩
      | user params body bodySpan =>
        rw [call_user hfound harity]
        -- The body writes to the new frame, whose number no frame had before.
        have hchild := s.tree.spares_child home name
        have hbind := (s.tree.child home name).2.extends_setFrame s.tree.entries.length
          (Frame.bind { name := name } params args)
        have hbody := hev s.tree.entries.length (.block body bodySpan) (entered s home name params args)
        have hboth := hbind.trans hbody
        refine ⟨?_, fun ht => ?_⟩
        · exact hchild.extend hboth (Nat.le_refl _)
        · exact hboth.ordered (ScopeTree.ordered_child (ScopeTree.findFunction_lt hfound) name ht)
    · rw [call_arity hfound harity]
      exact ⟨.refl _, id⟩

/-- The body of a function starts in a frame whose surroundings are the chain that the function was
found with. -/
theorem entered_spec {s : Store} {home : Nat} (ht : s.tree.Ordered) (hh : home < s.tree.entries.length)
    (name : String) (params : List String) (args : List Value) :
    (entered s home name params args).tree.Ordered ∧
    s.tree.entries.length < (entered s home name params args).tree.entries.length ∧
    (entered s home name params args).tree.outer s.tree.entries.length = s.tree.scope home ∧
    (entered s home name params args).tree.frame s.tree.entries.length =
      Frame.bind { name := name } params args := by
  have hchild := s.tree.entries_child home name
  have hlt : s.tree.entries.length < (s.tree.child home name).2.entries.length :=
    (List.getElem?_eq_some_iff.1 hchild).1
  have hset := (s.tree.child home name).2.extends_setFrame s.tree.entries.length
    (Frame.bind { name := name } params args)
  have hboth : Extends s.tree.entries.length s.tree (entered s home name params args).tree :=
    ((s.tree.spares_child home name).extends (ScopeTree.ordered_child hh name) _).trans hset
  refine ⟨hboth.ordered ht, hset.lt_length hlt, ?_, ScopeTree.frame_setFrame hlt _⟩
  obtain ⟨f, hf, -⟩ := hset.entry _ _ hchild
  rw [ScopeTree.outer_some (hboth.ordered ht) hf]
  exact hboth.scope_eq ht hh hh

/-! ## The two evaluations agree -/

section Agreement

variable {α β : Type} {i : Nat} {outer : Scope}

/-- Run in frame `i` of a tree, the action writes to that frame and to new ones only; and it gives what
the evaluation gives that has the frame as its state and the frames around it as an argument. -/
structure Follows (i : Nat) (outer : Scope) (x : Action α) (y : Eval α) : Prop where
  grows : ∀ s, Extends i s.tree (x s).2.tree
  agrees : ∀ s, s.tree.Ordered → i < s.tree.entries.length → s.tree.outer i = outer →
    y ⟨s.tree.frame i, s.log⟩ = ((x s).1, ⟨(x s).2.tree.frame i, (x s).2.log⟩)

namespace Follows

variable {x : Action α} {y : Eval α}

/-- What changes nothing but the log. -/
theorem of_steady (hx : ∀ s, (x s).2.tree = s.tree)
    (h : ∀ s, s.tree.Ordered → i < s.tree.entries.length → s.tree.outer i = outer →
      y ⟨s.tree.frame i, s.log⟩ = ((x s).1, ⟨s.tree.frame i, (x s).2.log⟩)) :
    Follows i outer x y := by
  refine ⟨fun s => ?_, fun s ht hi ho => ?_⟩
  · rw [hx s]
    exact .refl i _
  · rw [hx s]
    exact h s ht hi ho

theorem pure (a : α) : Follows i outer (Pure.pure a) (Pure.pure a) :=
  of_steady (fun _ => rfl) fun _ _ _ _ => rfl

theorem throw (e : Failure) : Follows i outer (MonadExcept.throw e : Action α) (MonadExcept.throw e) :=
  of_steady (fun _ => rfl) fun _ _ _ _ => rfl

theorem failAt (cause : Cause) (span : Option Span) :
    Follows i outer (Shared.failAt cause span : Action α) (Eval.failAt cause span) :=
  of_steady (fun _ => rfl) fun _ _ _ _ => rfl

theorem ofExcept (r : Except Failure α) : Follows i outer (Shared.ofExcept r) (Eval.ofExcept r) :=
  of_steady (fun _ => rfl) fun _ _ _ _ => rfl

theorem bind {f : α → Action β} {g : α → Eval β} (hx : Follows i outer x y)
    (hf : ∀ a, Follows i outer (f a) (g a)) : Follows i outer (x >>= f) (y >>= g) := by
  constructor
  · intro s
    have h := hx.grows s
    rw [Eval.bind_run]
    rcases hr : x s with ⟨e | a, s₁⟩ <;> rw [hr] at h
    · exact h
    · exact h.trans ((hf a).grows s₁)
  · intro s ht hi ho
    have h := hx.grows s
    have ha := hx.agrees s ht hi ho
    rw [Eval.bind_run (x := x)]
    rcases hr : x s with ⟨e | a, s₁⟩ <;> rw [hr] at h ha
    · rw [Eval.bind_run_error ha]
    · rw [Eval.bind_run_ok ha]
      -- The frames around are the same for what comes next.
      exact (hf a).agrees s₁ (h.ordered ht) (h.lt_length hi) ((h.outer_eq ht hi).trans ho)

theorem located {span : Option Span} (hx : Follows i outer x y) :
    Follows i outer (Shared.located span x) (Eval.located span y) := by
  refine ⟨hx.grows, fun s ht hi ho => ?_⟩
  rw [Eval.located_run, hx.agrees s ht hi ho]
  rfl

theorem mapM {f : α → Action β} {g : α → Eval β} (hf : ∀ a, Follows i outer (f a) (g a))
    (xs : List α) : Follows i outer (xs.mapM f) (xs.mapM g) := by
  induction xs with
  | nil => exact pure _
  | cons a xs ih =>
    rw [List.mapM_cons, List.mapM_cons]
    exact (hf a).bind fun _ => ih.bind fun _ => pure _

variable {ev : Node → Action Result} {ev' : Node → Eval Result}

theorem valueOf (h : ∀ node, Follows i outer (ev node) (ev' node)) (node : Node) :
    Follows i outer (Shared.valueOf ev node) (Eval.valueOf ev' node) := by
  refine (h node).bind fun r => ?_
  cases r with
  | single v => exact pure v
  | nothing => exact failAt _ _
  | compound vs => exact failAt _ _

theorem cell (h : ∀ node, Follows i outer (ev node) (ev' node)) (node : Node) :
    Follows i outer (Shared.cell ev node) (Eval.cell ev' node) := by
  refine (valueOf h node).bind fun v => ?_
  cases hv : v.number? with
  | some x => exact pure x
  | none => exact failAt _ _

theorem write (i : Nat) (outer : Scope) (f : Frame → Frame) :
    Follows i outer (Shared.write i f) (modify fun m => { m with frame := f m.frame }) := by
  refine ⟨fun s => ScopeTree.extends_setFrame _ _ _, fun s _ hi _ => ?_⟩
  show (Except.ok (), Machine.mk (f (s.tree.frame i)) s.log) =
    (.ok (), ⟨(s.tree.setFrame i (f (s.tree.frame i))).frame i, s.log⟩)
  rw [ScopeTree.frame_setFrame hi]

theorem var (name : String) (span : Option Span) {ev : Nat → Node → Action Result}
    {ev' : Scope → Node → Eval Result} :
    Follows i outer (Shared.step ev i (.var name span)) (Eval.step ev' outer (.var name span)) := by
  have hrun : ∀ s, Shared.step ev i (.var name span) s =
      match (s.tree.scope i).findVariable? name with
      | some v => (.ok (.single v), s)
      | none => (.error (.placed (.undeclaredVariable name) span), s) := by
    intro s
    rw [Shared.step, Eval.bind_run_ok (get_run s)]
    cases (s.tree.scope i).findVariable? name <;> rfl
  refine of_steady (fun s => ?_) fun s ht hi ho => ?_
  · rw [hrun]
    cases (s.tree.scope i).findVariable? name <;> rfl
  · rw [hrun, ScopeTree.scope_some ht (List.getElem?_eq_getElem hi), ho,
      ← ScopeTree.frame_some (List.getElem?_eq_getElem hi), Eval.step,
      Eval.bind_run_ok (Eval.get_run _)]
    cases Scope.findVariable? (s.tree.frame i :: outer) name <;> rfl

/-- A call gives the same, and its own frame is as it was. -/
theorem call {ev : Nat → Node → Action Result} {ev' : Scope → Node → Eval Result}
    (hev : ∀ j outer node, Follows j outer (ev j node) (ev' outer node)) (name : String)
    (args : List Value) (span : Option Span) :
    Follows i outer (Shared.call ev i name args span) (Eval.call ev' outer name args span) := by
  have hspares := call_spares (fun j node s => (hev j [] node).grows s) i name args span
  refine ⟨fun s => (hspares s).1.extends (hspares s).2 i, fun s ht hi ho => ?_⟩
  have hscope : s.tree.frame i :: outer = s.tree.scope i := by
    rw [ScopeTree.scope_some ht (List.getElem?_eq_getElem hi), ho,
      ScopeTree.frame_some (List.getElem?_eq_getElem hi)]
  have hfind := ScopeTree.findFunction?_scope ht i name
  rw [← hscope] at hfind
  rw [(hspares s).1.frame_eq hi]
  cases hfound : s.tree.findFunction i name with
  | error e =>
    rw [hfound] at hfind
    rw [call_undefined hfound, Eval.call_undefined hfind]
  | ok found =>
    obtain ⟨function, home⟩ := found
    rw [hfound] at hfind
    by_cases harity : args.length = function.arity
    · cases function with
      | native b =>
        obtain ⟨v, rfl⟩ := List.length_eq_one_iff.1 harity
        rw [call_native hfound, Eval.call_native hfind]
      | user params body bodySpan =>
        have hhome := ScopeTree.findFunction_lt hfound
        obtain ⟨hord, hlt, hout, hframe⟩ := entered_spec ht hhome name params args
        have hbody := (hev s.tree.entries.length (s.tree.scope home) (.block body bodySpan)).agrees
          (entered s home name params args) hord hlt hout
        -- Both bodies start with the same frame and the same log.
        have hstart : Eval.entered name params args (s.tree.scope home) s.log =
            ⟨(entered s home name params args).tree.frame s.tree.entries.length,
              (entered s home name params args).log⟩ := by
          rw [hframe]
          unfold Eval.entered entered ScopeTree.scope
          rw [List.length_map]
        rw [← hstart] at hbody
        rw [call_user hfound harity, Eval.call_user hfind harity, hbody]
    · rw [call_arity hfound harity, Eval.call_arity hfind harity]

theorem define (name : String) (params : List Identifier) (body : List Node)
    (bodySpan span : Option Span) {ev : Nat → Node → Action Result}
    {ev' : Scope → Node → Eval Result} :
    Follows i outer (Shared.step ev i (.define name params body bodySpan span))
      (Eval.step ev' outer (.define name params body bodySpan span)) := by
  have hnote : ∀ s : Store, Shared.step ev i (.define name params body bodySpan span) s =
      (Shared.write i (fun f => f.define name (.user (params.map Identifier.name) body bodySpan)) >>=
        fun _ => Pure.pure .nothing)
        ⟨s.tree, .defined name params.length (s.tree.frame i).name :: s.log⟩ := fun _ => rfl
  have h := (write i outer fun f =>
    f.define name (.user (params.map Identifier.name) body bodySpan)).bind fun _ => pure Result.nothing
  refine ⟨fun s => ?_, fun s ht hi ho => ?_⟩
  · rw [hnote]
    exact h.grows _
  · rw [hnote]
    exact h.agrees ⟨s.tree, .defined name params.length (s.tree.frame i).name :: s.log⟩ ht hi ho

/-- One step in both, for any node. -/
theorem step {ev : Nat → Node → Action Result} {ev' : Scope → Node → Eval Result}
    (hev : ∀ j outer node, Follows j outer (ev j node) (ev' outer node)) (node : Node) :
    Follows i outer (Shared.step ev i node) (Eval.step ev' outer node) := by
  have hin : ∀ node, Follows i outer (ev i node) (ev' outer node) := hev i outer
  cases node with
  | literal v span => exact pure _
  | empty span => exact pure _
  | var name span => exact var name span
  | unary op e span => exact (valueOf hin e).bind fun _ => (ofExcept _).bind fun _ => pure _
  | binary l op r span =>
    exact (valueOf hin l).bind fun _ => (valueOf hin r).bind fun _ => (ofExcept _).bind fun _ => pure _
  | ternary c y n span =>
    refine (valueOf hin c).bind fun v => ?_
    cases v with
    | boolean b => exact (valueOf hin _).bind fun _ => pure _
    | number x unit => exact failAt _ _
    | matrix m => exact failAt _ _
  | matrix rows span =>
    exact (mapM (fun row => mapM (cell hin) row) rows).bind fun _ => (ofExcept _).bind fun _ => pure _
  | call name args span =>
    exact (mapM (valueOf hin) args).bind fun _ => (call hev name _ span).bind fun _ => pure _
  | assign target e span =>
    exact (valueOf hin e).bind fun _ => (write i outer _).bind fun _ => pure _
  | block children span => exact (mapM hin children).bind fun _ => pure _
  | define name params body bodySpan span => exact define name params body bodySpan span

end Follows

/-- **Shared frames make no difference**: evaluated in a frame of a tree, a node gives the same result
as with the frame as state and the frames around it as an argument, leaves the same frame behind, and
leaves every other frame that was there as it was. -/
theorem evalAt_follows (depth i : Nat) (outer : Scope) (node : Node) :
    Follows i outer (evalAt depth i node) (Eval.eval depth outer node) := by
  induction depth generalizing i outer node with
  | zero => exact .throw _
  | succ depth ih =>
    rw [evalAt, Eval.eval]
    exact (Follows.step (fun j outer node => ih j outer node) node).located

end Agreement

end Reckon.Shared
