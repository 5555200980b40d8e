import Reckon.Proofs.Eval.Kept
import Reckon.Proofs.Value.Yields

/-!
# What holds of every value and of every failure

A property of values that operators and native functions hand on, from a property of nodes that parts
and bodies inherit, holds of whatever an evaluation gives, binds or passes to a function, and a property
of failures that each operator, function and node grants holds of every failure that comes out
(`Guarded`).  What is to be shown of the language is gathered there; that an evaluation then keeps it is
shown once, for all such properties (`Guarded.eval`, `Guarded.visits`).

The proofs go through evaluations piece by piece (`Meets`): from a frame that satisfies an invariant, a
result satisfies `V` and leaves such a frame, and a failure satisfies `E` together with the frame that it
leaves, which need not satisfy the invariant.
-/

namespace Reckon

/-- Every value of the outcome is `V`. -/
def Result.All (V : Value → Prop) (r : Result) : Prop :=
  ∀ v ∈ r.values, V v

namespace Eval

variable {α β : Type} {I : Frame → Prop} {V : α → Prop} {W : β → Prop} {E : Failure → Frame → Prop}

/-! ## Evaluations piece by piece -/

/-- From a frame that satisfies `I`, a result satisfies `V` and leaves such a frame, and a failure
satisfies `E` together with the frame that it leaves. -/
def Meets (I : Frame → Prop) (V : α → Prop) (E : Failure → Frame → Prop) (x : Eval α) : Prop :=
  ∀ m, I m.frame →
    (∀ a m₁, x m = (.ok a, m₁) → V a ∧ I m₁.frame) ∧ ∀ e m₁, x m = (.error e, m₁) → E e m₁.frame

namespace Meets

variable {x : Eval α}

theorem pure {a : α} (ha : V a) : Meets I V E (Pure.pure a) := by
  intro m hm
  refine ⟨fun b m₁ h => ?_, fun e m₁ h => (by cases h)⟩
  cases h
  exact ⟨ha, hm⟩

theorem failAt {cause : Cause} {span : Option Span} (h : ∀ f, I f → E (.placed cause span) f) :
    Meets I V E (Eval.failAt cause span) := by
  intro m hm
  refine ⟨fun a m₁ h => (by cases h), fun e m₁ he => ?_⟩
  cases he
  exact h _ hm

theorem ofExcept {r : Except Failure α} (h : ∀ f, I f → Outcome V (E · f) r) :
    Meets I V E (Eval.ofExcept r) := by
  intro m hm
  have hr := h _ hm
  constructor
  · intro a m₁ ha
    cases ha
    exact ⟨hr, hm⟩
  · intro e m₁ he
    cases he
    exact hr

theorem bind {f : α → Eval β} (hx : Meets I V E x) (hf : ∀ a, V a → Meets I W E (f a)) :
    Meets I W E (x >>= f) := by
  intro m hm
  obtain ⟨hok, herror⟩ := hx m hm
  rcases hxm : x m with ⟨e | a, m₁⟩
  · rw [bind_run_error hxm]
    refine ⟨fun b m₂ h => (by cases h), fun e' m₂ h => ?_⟩
    cases h
    exact herror e m₁ hxm
  · obtain ⟨ha, hm₁⟩ := hok a m₁ hxm
    rw [bind_run_ok hxm]
    exact hf a ha m₁ hm₁

theorem located {span : Option Span} (hx : Meets I V (fun e f => E (e.locate span) f) x) :
    Meets I V E (Eval.located span x) := by
  intro m hm
  obtain ⟨hok, herror⟩ := hx m hm
  rw [located_run]
  rcases hxm : x m with ⟨e | a, m₁⟩
  · refine ⟨fun b m₂ h => (by cases h), fun e' m₂ h => ?_⟩
    cases h
    exact herror e m₁ hxm
  · refine ⟨fun b m₂ h => ?_, fun e m₂ h => (by cases h)⟩
    cases h
    exact hok a m₁ hxm

/-- What is asked of a result or a failure may be asked of more of them. -/
theorem mono {V' : α → Prop} {E' : Failure → Frame → Prop} (hx : Meets I V E x)
    (hV : ∀ a, V a → V' a) (hE : ∀ e f, E e f → E' e f) : Meets I V' E' x := by
  intro m hm
  obtain ⟨hok, herror⟩ := hx m hm
  constructor
  · intro a m₁ ha
    obtain ⟨hv, hm₁⟩ := hok a m₁ ha
    exact ⟨hV a hv, hm₁⟩
  · intro e m₁ he
    exact hE e m₁.frame (herror e m₁ he)

/-- The results for a list: as many, and each of them the result for a member. -/
theorem mapM {R : α → β → Prop} {f : α → Eval β} {xs : List α}
    (hf : ∀ a ∈ xs, Meets I (R a) E (f a)) :
    Meets I (fun bs => bs.length = xs.length ∧ ∀ b ∈ bs, ∃ a ∈ xs, R a b) E (xs.mapM f) := by
  induction xs with
  | nil => exact pure ⟨rfl, fun b hb => absurd hb List.not_mem_nil⟩
  | cons a xs ih =>
    rw [List.mapM_cons]
    refine (hf a List.mem_cons_self).bind fun b hb => ?_
    refine (ih fun c hc => hf c (List.mem_cons_of_mem a hc)).bind fun bs hbs => pure ?_
    refine ⟨congrArg (· + 1) hbs.1, fun c hc => ?_⟩
    rcases List.mem_cons.1 hc with rfl | hc
    · exact ⟨a, List.mem_cons_self, hb⟩
    · obtain ⟨a', ha', hr⟩ := hbs.2 c hc
      exact ⟨a', List.mem_cons_of_mem a ha', hr⟩

/-- A call has its frame back, whatever it gives. -/
theorem call_unguarded {ev : Scope → Node → Eval Result} {outer : Scope} {name : String}
    {args : List Value} {span : Option Span} (h : ∀ e f, I f → E e f) :
    Meets I (fun _ => True) E (Eval.call ev outer name args span) := by
  intro m hm
  have hframe := call_frame ev outer name args span m
  constructor
  · intro v m₁ hv
    rw [hv] at hframe
    exact ⟨trivial, hframe ▸ hm⟩
  · intro e m₁ he
    rw [he] at hframe
    exact h e _ (hframe ▸ hm)

section Parts

variable {ev : Node → Eval Result} {node : Node} {U : Value → Prop}

theorem valueOf (h : Meets I (Result.All U) E (ev node))
    (hnone : ∀ f, I f → E (.placed (.evaluation .noValue) node.span) f) :
    Meets I U E (Eval.valueOf ev node) := by
  refine h.bind fun r hr => ?_
  cases r with
  | single v => exact pure (hr v List.mem_cons_self)
  | nothing => exact failAt hnone
  | compound vs => exact failAt hnone

theorem cell (h : Meets I U E (Eval.valueOf ev node))
    (hkind : ∀ k f, I f → E (.placed (.evaluation (.elementKind k)) node.span) f) :
    Meets I (fun _ => True) E (Eval.cell ev node) := by
  refine h.bind fun v _ => ?_
  cases v.number? with
  | some x => exact pure trivial
  | none => exact failAt (hkind _)

end Parts

end Meets

end Eval

open Eval

/-! ## Frames -/

/-- The variables of the frame are `V`, and the bodies of its functions `N`. -/
structure Frame.Holds (N : Node → Prop) (V : Value → Prop) (f : Frame) : Prop where
  vars : ∀ x v, (x, v) ∈ f.vars → V v
  functions : ∀ name params body bodySpan,
    (name, Function.user params body bodySpan) ∈ f.functions → N (.block body bodySpan)

/-- So do all frames of the scope. -/
def Scope.Holds (N : Node → Prop) (V : Value → Prop) (s : Scope) : Prop :=
  ∀ f ∈ s, f.Holds N V

section Holds

variable {N : Node → Prop} {V : Value → Prop} {f : Frame} {s outer home : Scope}

theorem Frame.Holds.assign (h : f.Holds N V) (x : String) {v : Value} (hv : V v) :
    (f.assign x v).Holds N V := by
  refine ⟨fun y w hmem => ?_, h.functions⟩
  rcases Bindings.mem_set hmem with heq | hmem
  · cases heq
    exact hv
  · exact h.vars y w hmem

theorem Frame.Holds.define (h : f.Holds N V) (name : String) (params : List String) {body : List Node}
    {bodySpan : Option Span} (hbody : N (.block body bodySpan)) :
    (f.define name (.user params body bodySpan)).Holds N V := by
  refine ⟨h.vars, fun name' params' body' bodySpan' hmem => ?_⟩
  rcases Bindings.mem_set hmem with heq | hmem
  · cases heq
    exact hbody
  · exact h.functions name' params' body' bodySpan' hmem

/-- Parameters are bound to arguments one by one. -/
theorem Frame.Holds.bind (h : f.Holds N V) (params : List String) {args : List Value}
    (hargs : ∀ v ∈ args, V v) : (f.bind params args).Holds N V := by
  induction args generalizing f params with
  | nil =>
    rw [Frame.bind, List.zip_nil_right]
    exact h
  | cons v args ih =>
    cases params with
    | nil => exact h
    | cons p params =>
      exact ih (h.assign p (hargs v List.mem_cons_self)) params
        fun w hw => hargs w (List.mem_cons_of_mem v hw)

/-- A frame that was just opened. -/
theorem Frame.Holds.opened (name : String) : Frame.Holds N V { name := name } :=
  ⟨fun _ _ hmem => absurd hmem List.not_mem_nil, fun _ _ _ _ hmem => absurd hmem List.not_mem_nil⟩

/-- At the start there are no variables, and native functions only. -/
theorem Frame.Holds.global : Frame.global.Holds N V := by
  refine ⟨fun x v hmem => ?_, fun name params body bodySpan hmem => ?_⟩
  · have hvars : Frame.global.vars = [] := rfl
    rw [hvars] at hmem
    cases hmem
  · obtain ⟨b, hb⟩ := Frame.native_of_mem_global hmem
    cases hb

theorem Scope.Holds.cons (hf : f.Holds N V) (h : Scope.Holds N V outer) :
    Scope.Holds N V (f :: outer) :=
  List.forall_mem_cons.2 ⟨hf, h⟩

theorem Scope.Holds.findVariable? (h : s.Holds N V) {name : String} {v : Value}
    (hfound : s.findVariable? name = some v) : V v := by
  obtain ⟨f, hf, hv⟩ := List.exists_of_findSome?_eq_some hfound
  exact (h f hf).vars name v (Bindings.mem_of_get? hv)

theorem Scope.Holds.findFunction? (h : s.Holds N V) {name : String} {params : List String}
    {body : List Node} {bodySpan : Option Span}
    (hfound : s.findFunction? name = some (.user params body bodySpan, home)) :
    N (.block body bodySpan) ∧ home.Holds N V := by
  refine ⟨?_, fun f hf => h f ((Scope.findFunction?_suffix hfound).subset hf)⟩
  induction s with
  | nil => cases hfound
  | cons f outer ih =>
    unfold Scope.findFunction? at hfound
    split at hfound
    · rename_i g hg
      cases hfound
      exact (h f List.mem_cons_self).functions name params body bodySpan (Bindings.mem_of_get? hg)
    · exact ih (fun g hg => h g (List.mem_cons_of_mem f hg)) hfound

end Holds

/-! ## What is to be shown of the language -/

/-- Nodes that are `N` make of values that are `V` only such values, and only failures that are `E`. -/
structure Guarded (N : Node → Prop) (V : Value → Prop) (E : Failure → Prop) : Prop where
  parts : ∀ n, N n → ∀ e ∈ n.parts, N e
  body : ∀ name ps body bs s, N (.define name ps body bs s) → N (.block body bs)
  literal : ∀ v s, N (.literal v s) → V v
  binary : ∀ l op r s, N (.binary l op r s) → ∀ x y, V x → V y →
    Outcome V (fun e => E (e.locate s)) (op.apply x y)
  unary : ∀ op n s, N (.unary op n s) → ∀ x, V x → Outcome V (fun e => E (e.locate s)) (op.apply x)
  matrix : ∀ rows s, N (.matrix rows s) → ∀ cells : List (List Float),
    cells.length = rows.length → (∀ xs ∈ cells, ∃ row ∈ rows, xs.length = row.length) →
    Outcome V (fun e => E (e.locate s)) (Builtin.shaped (Matrix.ofRows? cells))
  native : ∀ name args s, N (.call name args s) → ∀ (b : Builtin) x, V x →
    Outcome V (fun e => E (e.locate s)) (b.apply x)
  /-- What the evaluator itself complains of is no matter of dimensions, and it does so at a node. -/
  complaint : ∀ n cause, N n → cause.isDimensionMismatch = false → E (.placed cause n.span)
  locate : ∀ e s, E e → E (e.locate s)
  tooDeep : E (.mishap .tooDeep)

namespace Guarded

variable {N : Node → Prop} {V : Value → Prop} {E : Failure → Prop}

/-- The evaluation keeps frames as they should be and gives only such values and failures. -/
abbrev Grants {α : Type} (N : Node → Prop) (V : Value → Prop) (W : α → Prop) (E : Failure → Prop)
    (x : Eval α) : Prop :=
  Meets (Frame.Holds N V) W (fun e f => E e ∧ f.Holds N V) x

/-- Every node that is `N` is evaluated so. -/
def Evaluates (N : Node → Prop) (V : Value → Prop) (E : Failure → Prop)
    (ev : Scope → Node → Eval Result) : Prop :=
  ∀ outer n, N n → Scope.Holds N V outer → Grants N V (Result.All V) E (ev outer n)

variable {ev : Scope → Node → Eval Result} {outer : Scope} {n : Node}

section Pieces

variable {α : Type} {W : α → Prop} {x : Eval α}

/-- A failure that is granted is granted at any place. -/
theorem weaken (h : Guarded N V E) (s : Option Span) (hx : Grants N V W E x) :
    Grants N V W (fun e => E (e.locate s)) x :=
  hx.mono (fun _ ha => ha) fun e _ he => ⟨h.locate e s he.1, he.2⟩

theorem failAt (h : Guarded N V E) (hn : N n) {cause : Cause}
    (hcause : cause.isDimensionMismatch = false) :
    Grants N V W E (Eval.failAt cause n.span) :=
  .failAt fun _ hf => ⟨h.complaint n cause hn hcause, hf⟩

theorem ofExcept {r : Except Failure α} (hr : Outcome W E r) : Grants N V W E (Eval.ofExcept r) := by
  refine .ofExcept fun f hf => ?_
  cases r with
  | ok a => exact hr
  | error e => exact ⟨hr, hf⟩

theorem valueOf (h : Guarded N V E) (hev : Evaluates N V E ev) (hn : N n)
    (houter : Scope.Holds N V outer) : Grants N V V E (Eval.valueOf (ev outer) n) :=
  .valueOf (hev outer n hn houter) fun _ hf => ⟨h.complaint n _ hn rfl, hf⟩

theorem cell (h : Guarded N V E) (hev : Evaluates N V E ev) (hn : N n)
    (houter : Scope.Holds N V outer) : Grants N V (fun _ => True) E (Eval.cell (ev outer) n) :=
  .cell (h.valueOf hev hn houter) fun _ _ hf => ⟨h.complaint n _ hn rfl, hf⟩

end Pieces

/-- The arguments of a call. -/
theorem arguments (h : Guarded N V E) (hev : Evaluates N V E ev) {args : List Node}
    (hargs : ∀ e ∈ args, N e) (houter : Scope.Holds N V outer) :
    Grants N V (fun vs => ∀ v ∈ vs, V v) E (args.mapM (Eval.valueOf (ev outer))) := by
  refine (Meets.mapM fun e he => h.valueOf hev (hargs e he) houter).mono (fun vs hvs v hv => ?_)
    fun _ _ he => he
  obtain ⟨-, -, h⟩ := hvs.2 v hv
  exact h

/-- The cells of a matrix: as many rows, each as long as one of the rows. -/
theorem cells (h : Guarded N V E) (hev : Evaluates N V E ev) {rows : List (List Node)}
    (hrows : ∀ row ∈ rows, ∀ e ∈ row, N e) (houter : Scope.Holds N V outer) :
    Grants N V (fun cells => cells.length = rows.length ∧ ∀ xs ∈ cells, ∃ row ∈ rows,
      xs.length = row.length) E (rows.mapM fun row => row.mapM (Eval.cell (ev outer))) := by
  refine Meets.mapM fun row hrow => ?_
  exact (Meets.mapM fun e he => h.cell hev (hrows row hrow e he) houter).mono
    (fun xs hxs => hxs.1) fun _ _ he => he

/-- A call: the arguments are bound in the frame of the call, and the frame before is there again. -/
theorem call (h : Guarded N V E) (hev : Evaluates N V E ev) {name : String} {args : List Node}
    {span : Option Span} (hn : N (.call name args span)) (houter : Scope.Holds N V outer)
    {vs : List Value} (hvs : ∀ v ∈ vs, V v) :
    Grants N V V (fun e => E (e.locate span)) (Eval.call ev outer name vs span) := by
  have hcomplaint : ∀ cause : Cause, cause.isDimensionMismatch = false →
      E ((Failure.placed cause span).locate span) := fun cause hcause =>
    h.locate _ span (h.complaint _ cause hn hcause)
  intro m hm
  have hframe := call_frame ev outer name vs span m
  -- The frame is back in any case, so that only the outcome is left.
  suffices hout : Outcome V (fun e => E (e.locate span)) (Eval.call ev outer name vs span m).1 by
    constructor
    · intro v m₁ hv
      rw [hv] at hframe hout
      exact ⟨hout, hframe ▸ hm⟩
    · intro e m₁ he
      rw [he] at hframe hout
      exact ⟨hout, hframe ▸ hm⟩
  cases hfound : Scope.findFunction? (m.frame :: outer) name with
  | none =>
    rw [call_undefined hfound]
    exact hcomplaint _ rfl
  | some found =>
    obtain ⟨function, home⟩ := found
    by_cases harity : vs.length = function.arity
    · cases function with
      | native b =>
        obtain ⟨v, rfl⟩ := List.length_eq_one_iff.1 harity
        rw [call_native hfound]
        exact h.native name args span hn b v (hvs v List.mem_cons_self)
      | user params body bodySpan =>
        obtain ⟨hbody, hhome⟩ := (houter.cons hm).findFunction? hfound
        have hentered : (entered name params vs home m.log).frame.Holds N V :=
          (Frame.Holds.opened name).bind params hvs
        obtain ⟨hok, herror⟩ := hev home (.block body bodySpan) hbody hhome _ hentered
        rw [call_user hfound harity]
        rcases hrun : ev home (.block body bodySpan) (entered name params vs home m.log) with
          ⟨e | r, m₁⟩
        · exact h.locate e span (herror e m₁ hrun).1
        · show Outcome _ _ (returned name bodySpan r)
          unfold returned
          split
          · rename_i v hv
            exact (hok r m₁ hrun).1 v (List.mem_of_getLast? hv)
          · exact h.locate _ span (h.complaint _ _ hbody rfl)
    · rw [call_arity hfound harity]
      exact hcomplaint _ rfl

/-! ## What an evaluation keeps -/

theorem step (h : Guarded N V E) (hev : Evaluates N V E ev) (hn : N n)
    (houter : Scope.Holds N V outer) :
    Grants N V (Result.All V) (fun e => E (e.locate n.span)) (step ev outer n) := by
  have hpart : ∀ e ∈ n.parts, Grants N V V (fun e => E (e.locate n.span)) (Eval.valueOf (ev outer) e) :=
    fun e he => h.weaken _ (h.valueOf hev (h.parts n hn e he) houter)
  have hsingle : ∀ {v : Value}, V v → Grants N V (Result.All V) (fun e => E (e.locate n.span))
      (pure (.single v)) := by
    intro v hv
    refine .pure fun w hw => ?_
    rw [List.mem_singleton.1 hw]
    exact hv
  have hnothing : Grants N V (Result.All V) (fun e => E (e.locate n.span))
      (pure .nothing) := .pure fun v hv => absurd hv List.not_mem_nil
  cases n with
  | literal v span => exact hsingle (h.literal v span hn)
  | empty span => exact hnothing
  | var name span =>
    intro m hm
    have hmissing : Grants N V (Result.All V) (fun e => E (e.locate span))
        (Eval.failAt (.undeclaredVariable name) span) := h.weaken span (h.failAt hn rfl)
    rw [Eval.step, bind_run_ok (get_run m)]
    cases hv : Scope.findVariable? (m.frame :: outer) name with
    | some v => exact hsingle ((houter.cons hm).findVariable? hv) m hm
    | none => exact hmissing m hm
  | unary op e span =>
    refine (hpart e (by simp [Node.parts])).bind fun x hx => ?_
    exact (ofExcept (h.unary op e span hn x hx)).bind fun v hv => hsingle hv
  | binary l op r span =>
    refine (hpart l (by simp [Node.parts])).bind fun x hx => ?_
    refine (hpart r (by simp [Node.parts])).bind fun y hy => ?_
    exact (ofExcept (h.binary l op r span hn x y hx hy)).bind fun v hv => hsingle hv
  | ternary c y m span =>
    have hcondition := h.parts _ hn c (by simp [Node.parts])
    refine (hpart c (by simp [Node.parts])).bind fun v _ => ?_
    cases v with
    | boolean b =>
      refine (hpart _ ?_).bind fun v hv => hsingle hv
      cases b <;> simp [Node.parts]
    | number x unit => exact h.weaken span (h.failAt hcondition rfl)
    | matrix m => exact h.weaken span (h.failAt hcondition rfl)
  | matrix rows span =>
    have hrows : ∀ row ∈ rows, ∀ e ∈ row, N e := fun row hrow e he =>
      h.parts _ hn e (List.mem_flatten.2 ⟨row, hrow, he⟩)
    refine (h.weaken span (h.cells hev hrows houter)).bind fun cells hcells => ?_
    exact (ofExcept (h.matrix rows span hn cells hcells.1 hcells.2)).bind fun v hv =>
      hsingle hv
  | call name args span =>
    refine (h.weaken span (h.arguments hev (h.parts _ hn) houter)).bind fun vs hvs => ?_
    exact (h.call hev hn houter hvs).bind fun v hv => hsingle hv
  | assign target e span =>
    refine (hpart e (by simp [Node.parts])).bind fun v hv => ?_
    intro m hm
    rw [bind_run_ok (modify_run _ m)]
    exact hsingle hv ⟨m.frame.assign target.name v, m.log⟩ (hm.assign target.name hv)
  | block children span =>
    have hchild : ∀ e ∈ children, Grants N V (Result.All V)
        (fun e => E (e.locate span)) (ev outer e) := fun e he =>
      h.weaken _ (hev outer e (h.parts _ hn e he) houter)
    refine (Meets.mapM hchild).bind fun rs hrs => .pure fun v hv => ?_
    obtain ⟨r, hr, hv⟩ := List.mem_flatMap.1 hv
    obtain ⟨-, -, hall⟩ := hrs.2 r hr
    exact hall v hv
  | define name params body bodySpan span =>
    intro m hm
    rw [Eval.step, bind_run_ok (get_run m), bind_run_ok (note_run _ m), bind_run_ok (modify_run _ _)]
    exact hnothing ⟨m.frame.define name _, _⟩ (hm.define name _ (h.body name params body _ span hn))

/-- However deep, an evaluation gives only such values and failures, and leaves such a frame. -/
theorem eval (h : Guarded N V E) (depth : Nat) : Evaluates N V E (eval depth) := by
  induction depth with
  | zero =>
    intro outer n _ _ m hm
    refine ⟨fun r m₁ hr => (by cases hr), fun e m₁ he => ?_⟩
    cases he
    exact ⟨h.tooDeep, hm⟩
  | succ depth ih =>
    intro outer n hn houter
    rw [Eval.eval]
    exact (h.step ih hn houter).located

theorem keeps (h : Guarded N V E) (depth : Nat) (hn : N n) (houter : Scope.Holds N V outer) :
    Eval.Keeps (Frame.Holds N V) (Eval.eval depth outer n) := by
  intro m hm
  obtain ⟨hok, herror⟩ := h.eval depth outer n hn houter m hm
  rcases hrun : Eval.eval depth outer n m with ⟨f | r, m₁⟩
  · exact (herror f m₁ hrun).2
  · exact (hok r m₁ hrun).2

/-- An evaluation about to run: its node is `N`, and so are the bodies in its scope, the variables `V`. -/
structure Holds (N : Node → Prop) (V : Value → Prop) (v : Visit) : Prop where
  node : N v.node
  frame : v.machine.frame.Holds N V
  outer : Scope.Holds N V v.outer

variable {v w : Visit}

/-- What an evaluation starts is as it should be if it is itself. -/
theorem starts (h : Guarded N V E) (hv : Holds N V v) (hs : v.Starts w) : Holds N V w := by
  have hkeeps : ∀ e ∈ v.node.parts, Eval.Keeps (Frame.Holds N V) (Eval.eval w.depth v.outer e) :=
    fun e he => h.keeps w.depth (h.parts _ hv.node e he) hv.outer
  rcases hs.part_or_body with ⟨hpart, houter, hframe⟩ |
    ⟨name, args, span, vs, m₁, params, body, bodySpan, hcall, hargs, hfound, hnode, hmachine⟩
  · exact ⟨h.parts _ hv.node _ hpart, hframe _ hkeeps hv.frame, houter ▸ hv.outer⟩
  · have hparts : ∀ e ∈ args, N e := fun e he => h.parts _ hv.node e (by rw [hcall]; exact he)
    obtain ⟨hok, -⟩ := h.arguments (h.eval w.depth) hparts hv.outer v.machine hv.frame
    obtain ⟨hvs, hm₁⟩ := hok vs m₁ hargs
    obtain ⟨hbody, hhome⟩ := (hv.outer.cons hm₁).findFunction? hfound
    refine ⟨hnode ▸ hbody, ?_, hhome⟩
    rw [hmachine]
    exact (Frame.Holds.opened name).bind params hvs

/-- So is whatever is met while an evaluation runs. -/
theorem visits (h : Guarded N V E) (hv : Holds N V v) (hw : v.Visits w) : Holds N V w := by
  induction hw with
  | refl => exact hv
  | tail _ hs ih => exact h.starts ih hs

end Guarded

end Reckon
