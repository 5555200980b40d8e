import Mathlib.Data.List.Forall2
import Mathlib.Data.Set.Function
import Reckon.Proofs.Syntax.Bare
import Reckon.Proofs.Syntax.Rename
import Reckon.Scope.Frame

/-!
# Scopes with other names for their variables

Two programs can differ in the names of parameters and in their spans and still mean the same.  Here
such programs are related to one another, and so are the frames and scopes that they run in.  In both,
a name `x` is written `ρ x` in the second one, and which `ρ` that is changes at definitions: inside the
body of a function it may be another one than outside, as long as the two differ on the parameters of
the function only (`Renaming.Rebinds`).

So the frames of a scope need not all have the same `ρ`.  What makes variables mean the same in both
scopes is that the `ρ` of a frame and that of the frames around it differ only on names that the frame
binds (`Renaming.Scopes`).

A renaming says which names are in play and which `ρ` are allowed.  With the identity alone, only spans
can differ.
-/

namespace Reckon

/-! ## Bindings -/

namespace Bindings

variable {α : Type}

/-- The bindings with each name `x` written `ρ x`. -/
def renamed (ρ : String → String) (b : Bindings α) : Bindings α :=
  b.map fun p => (ρ p.1, p.2)

section Names

variable {ρ : String → String} {names : Set String} {b : Bindings α} {x : String}

theorem get?_renamed (hρ : Set.InjOn ρ names) (hb : ∀ p ∈ b, p.1 ∈ names) (hx : x ∈ names) :
    (b.renamed ρ).get? (ρ x) = b.get? x := by
  induction b with
  | nil => rfl
  | cons p rest ih =>
    have hp := hb p List.mem_cons_self
    have hrest := ih fun q hq => hb q (List.mem_cons_of_mem p hq)
    simp only [renamed, List.map_cons, get?, hρ.eq_iff hp hx]
    split
    · rfl
    · exact hrest

theorem set_renamed (hρ : Set.InjOn ρ names) (hb : ∀ p ∈ b, p.1 ∈ names) (hx : x ∈ names) (v : α) :
    (b.renamed ρ).set (ρ x) v = (b.set x v).renamed ρ := by
  induction b with
  | nil => rfl
  | cons p rest ih =>
    have hp := hb p List.mem_cons_self
    have hrest := ih fun q hq => hb q (List.mem_cons_of_mem p hq)
    simp only [renamed, List.map_cons, set, hρ.eq_iff hp hx]
    split
    · rfl
    · exact congrArg _ hrest

end Names

/-- The same names in the same order, bound to things that are related. -/
def Related (Q : α → α → Prop) : Bindings α → Bindings α → Prop :=
  List.Forall₂ fun p q => q.1 = p.1 ∧ Q p.2 q.2

variable {Q : α → α → Prop} {b b' : Bindings α}

theorem Related.get? (h : Related Q b b') (x : String) :
    (b.get? x = none ∧ b'.get? x = none) ∨
      ∃ v v', b.get? x = some v ∧ b'.get? x = some v' ∧ Q v v' := by
  induction h with
  | nil => exact .inl ⟨rfl, rfl⟩
  | cons hpq _ ih =>
    simp only [Bindings.get?, hpq.1]
    split
    · exact .inr ⟨_, _, rfl, rfl, hpq.2⟩
    · exact ih

theorem Related.set (h : Related Q b b') (x : String) {v v' : α} (hv : Q v v') :
    Related Q (b.set x v) (b'.set x v') := by
  induction h with
  | nil => exact .cons ⟨rfl, hv⟩ .nil
  | cons hpq htail ih =>
    simp only [Bindings.set, hpq.1]
    split
    · exact .cons ⟨rfl, hv⟩ htail
    · exact .cons ⟨rfl, hpq.2⟩ ih

end Bindings

/-! ## Programs -/

/-- Which names are in play, and how they may be renamed. -/
structure Renaming where
  names : Set String
  maps : Set (String → String)
  injOn : ∀ ρ ∈ maps, Set.InjOn ρ names

namespace Renaming

variable (R : Renaming)

/-- In a function with parameters `ps`, around which names are renamed by `ρ`, they are renamed by
`σ`. -/
structure Rebinds (ρ σ : String → String) (ps ps' : List String) : Prop where
  allowed : σ ∈ R.maps
  known : ∀ p ∈ ps, p ∈ R.names
  params : ps' = ps.map σ
  outside : ∀ x ∈ R.names, x ∉ ps → σ x = ρ x

mutual

/-- The second tree is the first one with its variables renamed by `ρ`, and possibly other spans. -/
inductive Nodes : (String → String) → Node → Node → Prop where
  | empty {ρ : String → String} {s s' : Option Span} : Nodes ρ (.empty s) (.empty s')
  | literal {ρ : String → String} {v : Value} {s s' : Option Span} :
      Nodes ρ (.literal v s) (.literal v s')
  | var {ρ : String → String} {x : String} {s s' : Option Span} (hx : x ∈ R.names) :
      Nodes ρ (.var x s) (.var (ρ x) s')
  | unary {ρ : String → String} {op : UnaryOp} {e e' : Node} {s s' : Option Span}
      (he : Nodes ρ e e') : Nodes ρ (.unary op e s) (.unary op e' s')
  | binary {ρ : String → String} {op : BinaryOp} {l l' r r' : Node} {s s' : Option Span}
      (hl : Nodes ρ l l') (hr : Nodes ρ r r') : Nodes ρ (.binary l op r s) (.binary l' op r' s')
  | ternary {ρ : String → String} {c c' y y' n n' : Node} {s s' : Option Span} (hc : Nodes ρ c c')
      (hy : Nodes ρ y y') (hn : Nodes ρ n n') : Nodes ρ (.ternary c y n s) (.ternary c' y' n' s')
  | matrix {ρ : String → String} {rows rows' : List (List Node)} {s s' : Option Span}
      (hrows : Rows ρ rows rows') : Nodes ρ (.matrix rows s) (.matrix rows' s')
  | call {ρ : String → String} {f : String} {args args' : List Node} {s s' : Option Span}
      (hargs : Lists ρ args args') : Nodes ρ (.call f args s) (.call f args' s')
  | assign {ρ : String → String} {t t' : Identifier} {e e' : Node} {s s' : Option Span}
      (ht : t.name ∈ R.names) (htarget : t'.name = ρ t.name) (he : Nodes ρ e e') :
      Nodes ρ (.assign t e s) (.assign t' e' s')
  | block {ρ : String → String} {cs cs' : List Node} {s s' : Option Span}
      (hcs : Lists ρ cs cs') : Nodes ρ (.block cs s) (.block cs' s')
  | define {ρ σ : String → String} {f : String} {ps ps' : List Identifier} {cs cs' : List Node}
      {bs bs' s s' : Option Span}
      (hps : R.Rebinds ρ σ (ps.map Identifier.name) (ps'.map Identifier.name))
      (hcs : Lists σ cs cs') : Nodes ρ (.define f ps cs bs s) (.define f ps' cs' bs' s')

/-- Each tree of the second list is that of the first one, renamed by `ρ`. -/
inductive Lists : (String → String) → List Node → List Node → Prop where
  | nil {ρ : String → String} : Lists ρ [] []
  | cons {ρ : String → String} {n n' : Node} {ns ns' : List Node} (hn : Nodes ρ n n')
      (hns : Lists ρ ns ns') : Lists ρ (n :: ns) (n' :: ns')

/-- Each tree of the second rows is that of the first ones, renamed by `ρ`. -/
inductive Rows : (String → String) → List (List Node) → List (List Node) → Prop where
  | nil {ρ : String → String} : Rows ρ [] []
  | cons {ρ : String → String} {row row' : List Node} {rows rows' : List (List Node)}
      (hrow : Lists ρ row row') (hrows : Rows ρ rows rows') : Rows ρ (row :: rows) (row' :: rows')

end

theorem lists_iff {ρ : String → String} {ns ns' : List Node} :
    R.Lists ρ ns ns' ↔ List.Forall₂ (R.Nodes ρ) ns ns' := by
  constructor
  · intro h
    induction ns generalizing ns' with
    | nil =>
      cases h
      exact .nil
    | cons n ns ih =>
      cases h with
      | cons hn hns => exact .cons hn (ih hns)
  · intro h
    induction h with
    | nil => exact .nil
    | cons hn _ ih => exact .cons hn ih

theorem rows_iff {ρ : String → String} {rows rows' : List (List Node)} :
    R.Rows ρ rows rows' ↔ List.Forall₂ (List.Forall₂ (R.Nodes ρ)) rows rows' := by
  constructor
  · intro h
    induction rows generalizing rows' with
    | nil =>
      cases h
      exact .nil
    | cons row rows ih =>
      cases h with
      | cons hrow hrows => exact .cons ((lists_iff R).1 hrow) (ih hrows)
  · intro h
    induction h with
    | nil => exact .nil
    | cons hrow _ ih => exact .cons ((lists_iff R).2 hrow) ih

/-- Lists whose members are equal up to `g` are related member by member, if such members are. -/
theorem forall₂_of_map_eq {α β : Type} {g : α → β} {Q : α → α → Prop} {xs ys : List α}
    (hQ : ∀ a ∈ xs, ∀ b, g b = g a → Q a b) (h : ys.map g = xs.map g) : List.Forall₂ Q xs ys := by
  induction xs generalizing ys with
  | nil =>
    rw [List.map_nil, List.map_eq_nil_iff] at h
    rw [h]
    exact .nil
  | cons a xs ih =>
    cases ys with
    | nil => cases h
    | cons b ys =>
      obtain ⟨hb, hys⟩ := List.cons.inj h
      exact .cons (hQ a List.mem_cons_self b hb)
        (ih (fun c hc => hQ c (List.mem_cons_of_mem a hc)) hys)

/-- Trees that differ in their spans only are related without renaming. -/
theorem nodes_of_bare (hid : id ∈ R.maps) {n n' : Node} (hn : ∀ x ∈ n.variableNames, x ∈ R.names)
    (h : n'.bare = n.bare) : R.Nodes id n n' := by
  induction n using Node.induct generalizing n' with
  | step n hparts hbody =>
    have hpart : ∀ e ∈ n.parts, ∀ e', e'.bare = e.bare → R.Nodes id e e' := fun e he e' heq =>
      hparts e he (fun x hx => hn x (Node.variableNames_parts he hx)) heq
    cases n with
    | empty s =>
      cases n' with
      | empty s' => exact .empty
      | _ => simp [Node.bare] at h
    | literal v s =>
      cases n' with
      | literal v' s' =>
        simp only [Node.bare, Node.literal.injEq, and_true] at h
        rw [h]
        exact .literal
      | _ => simp [Node.bare] at h
    | var x s =>
      cases n' with
      | var x' s' =>
        simp only [Node.bare, Node.var.injEq, and_true] at h
        rw [h]
        exact .var (hn x (by simp [Node.variableNames]))
      | _ => simp [Node.bare] at h
    | unary op e s =>
      cases n' with
      | unary op' e' s' =>
        simp only [Node.bare, Node.unary.injEq, and_true] at h
        obtain ⟨rfl, he⟩ := h
        exact .unary (hpart e (by simp [Node.parts]) e' he)
      | _ => simp [Node.bare] at h
    | binary l op r s =>
      cases n' with
      | binary l' op' r' s' =>
        simp only [Node.bare, Node.binary.injEq, and_true] at h
        obtain ⟨hl, rfl, hr⟩ := h
        exact .binary (hpart l (by simp [Node.parts]) l' hl) (hpart r (by simp [Node.parts]) r' hr)
      | _ => simp [Node.bare] at h
    | ternary c y m s =>
      cases n' with
      | ternary c' y' m' s' =>
        simp only [Node.bare, Node.ternary.injEq, and_true] at h
        obtain ⟨hc, hy, hm⟩ := h
        exact .ternary (hpart c (by simp [Node.parts]) c' hc) (hpart y (by simp [Node.parts]) y' hy)
          (hpart m (by simp [Node.parts]) m' hm)
      | _ => simp [Node.bare] at h
    | matrix rows s =>
      cases n' with
      | matrix rows' s' =>
        simp only [Node.bare, Node.bareRows_eq_map, Node.matrix.injEq, and_true] at h
        refine .matrix ((rows_iff R).2 (forall₂_of_map_eq (fun row hrow row' hrow' => ?_) h))
        exact forall₂_of_map_eq (fun e he => hpart e (List.mem_flatten.2 ⟨row, hrow, he⟩)) hrow'
      | _ => simp [Node.bare] at h
    | call f args s =>
      cases n' with
      | call f' args' s' =>
        simp only [Node.bare, Node.bareList_eq_map, Node.call.injEq, and_true] at h
        obtain ⟨rfl, hargs⟩ := h
        exact .call ((lists_iff R).2 (forall₂_of_map_eq hpart hargs))
      | _ => simp [Node.bare] at h
    | assign t e s =>
      cases n' with
      | assign t' e' s' =>
        simp only [Node.bare, Identifier.bare, Node.assign.injEq, Identifier.mk.injEq, and_true] at h
        obtain ⟨ht, he⟩ := h
        exact .assign (hn t.name (by simp [Node.variableNames])) ht (hpart e (by simp [Node.parts]) e' he)
      | _ => simp [Node.bare] at h
    | block cs s =>
      cases n' with
      | block cs' s' =>
        simp only [Node.bare, Node.bareList_eq_map, Node.block.injEq, and_true] at h
        exact .block ((lists_iff R).2 (forall₂_of_map_eq hpart h))
      | _ => simp [Node.bare] at h
    | define f ps cs bs s =>
      cases n' with
      | define f' ps' cs' bs' s' =>
        simp only [Node.bare, Node.bareList_eq_map, Node.define.injEq, and_true] at h
        obtain ⟨rfl, hps, hcs⟩ := h
        have hnames : ps'.map Identifier.name = ps.map Identifier.name := by
          have hmap := congrArg (List.map Identifier.name) hps
          rwa [List.map_map, List.map_map] at hmap
        have hknown : ∀ p ∈ ps.map Identifier.name, p ∈ R.names := fun p hp =>
          hn p (List.mem_append_left _ hp)
        refine .define ⟨hid, hknown, by rw [hnames, List.map_id], fun _ _ _ => rfl⟩ ?_
        refine (lists_iff R).2 (forall₂_of_map_eq (fun e he e' heq => ?_) hcs)
        exact hbody e he (fun x hx => hn x (Node.variableNames_body he hx)) heq
      | _ => simp [Node.bare] at h

/-! ## Frames and scopes -/

/-- The second function is the first one, renamed. -/
inductive Functions (ρ : String → String) : Function → Function → Prop where
  | native {b : Builtin} : Functions ρ (.native b) (.native b)
  | user {σ : String → String} {ps ps' : List String} {cs cs' : List Node} {bs bs' : Option Span}
      (hps : R.Rebinds ρ σ ps ps') (hcs : R.Lists σ cs cs') :
      Functions ρ (.user ps cs bs) (.user ps' cs' bs')

/-- The second frame is the first one with its variables renamed by `ρ`. -/
structure Frames (ρ : String → String) (f f' : Frame) : Prop where
  allowed : ρ ∈ R.maps
  name : f'.name = f.name
  known : ∀ p ∈ f.vars, p.1 ∈ R.names
  vars : f'.vars = f.vars.renamed ρ
  functions : f.functions.Related (R.Functions ρ) f'.functions

/-- The second scope is the first one renamed, its innermost frame by `ρ`.  A name that no frame binds
is not renamed. -/
inductive Scopes : (String → String) → Scope → Scope → Prop where
  | nil {ρ : String → String} (free : ∀ x ∈ R.names, ρ x = x) : Scopes ρ [] []
  | cons {ρ τ : String → String} {f f' : Frame} {s s' : Scope} (hf : R.Frames ρ f f')
      (hs : Scopes τ s s') (unbound : ∀ x ∈ R.names, f.vars.get? x = none → ρ x = τ x) :
      Scopes ρ (f :: s) (f' :: s')

variable {R} {ρ τ : String → String} {s s' : Scope} {f f' : Frame} {x : String}

theorem Functions.arity {g g' : Function} (h : R.Functions ρ g g') : g'.arity = g.arity := by
  cases h with
  | native => rfl
  | user hps _ =>
    show _ = List.length _
    rw [Function.arity, hps.params, List.length_map]

theorem Frames.get? (h : R.Frames ρ f f') (hx : x ∈ R.names) :
    f'.vars.get? (ρ x) = f.vars.get? x := by
  rw [h.vars]
  exact Bindings.get?_renamed (R.injOn ρ h.allowed) h.known hx

theorem Scopes.length_eq (h : R.Scopes ρ s s') : s'.length = s.length := by
  induction h with
  | nil _ => rfl
  | cons _ _ _ ih => rw [List.length_cons, List.length_cons, ih]

/-- A variable means the same in both scopes, and one that means nothing has the same name. -/
theorem Scopes.findVariable? (h : R.Scopes ρ s s') (hx : x ∈ R.names) :
    s'.findVariable? (ρ x) = s.findVariable? x ∧ (s.findVariable? x = none → ρ x = x) := by
  induction h with
  | nil free => exact ⟨rfl, fun _ => free x hx⟩
  | @cons ρ τ f f' s s' hf _ unbound ih =>
    simp only [Scope.findVariable?, List.findSome?_cons, hf.get? hx] at ih ⊢
    cases hv : f.vars.get? x with
    | some v => exact ⟨rfl, nofun⟩
    | none =>
      rw [unbound x hx hv]
      exact ih

/-- A function is found in both scopes or in neither. -/
theorem Scopes.findFunction? (h : R.Scopes ρ s s') (name : String) :
    (s.findFunction? name = none ∧ s'.findFunction? name = none) ∨
      ∃ τ g g' home home', s.findFunction? name = some (g, home) ∧
        s'.findFunction? name = some (g', home') ∧ R.Functions τ g g' ∧ R.Scopes τ home home' := by
  induction h with
  | nil _ => exact .inl ⟨rfl, rfl⟩
  | @cons ρ τ f f' s s' hf hs unbound ih =>
    simp only [Scope.findFunction?]
    rcases hf.functions.get? name with ⟨hg, hg'⟩ | ⟨g, g', hg, hg', hq⟩
    · rw [hg, hg']
      exact ih
    · rw [hg, hg']
      exact .inr ⟨ρ, g, g', f :: s, f' :: s', rfl, rfl, hq, .cons hf hs unbound⟩

/-! ## Changes of the innermost frame -/

theorem Frames.assign (h : R.Frames ρ f f') (hx : x ∈ R.names) (v : Value) :
    R.Frames ρ (f.assign x v) (f'.assign (ρ x) v) where
  allowed := h.allowed
  name := h.name
  known p hp := by
    rcases Bindings.mem_set hp with rfl | hp
    · exact hx
    · exact h.known p hp
  vars := by
    show f'.vars.set (ρ x) v = _
    rw [h.vars]
    exact Bindings.set_renamed (R.injOn ρ h.allowed) h.known hx v
  functions := h.functions

theorem Scopes.assign (h : R.Scopes ρ (f :: s) (f' :: s')) (hx : x ∈ R.names) (v : Value) :
    R.Scopes ρ (f.assign x v :: s) (f'.assign (ρ x) v :: s') := by
  cases h with
  | cons hf hs unbound =>
    refine .cons (hf.assign hx v) hs fun y hy hnone => unbound y hy ?_
    have hset : (f.vars.set x v).get? y = none := hnone
    rw [Bindings.get?_set] at hset
    split at hset
    · cases hset
    · exact hset

theorem Scopes.define (h : R.Scopes ρ (f :: s) (f' :: s')) (name : String) {g g' : Function}
    (hg : R.Functions ρ g g') : R.Scopes ρ (f.define name g :: s) (f'.define name g' :: s') := by
  cases h with
  | cons hf hs unbound =>
    exact .cons ⟨hf.allowed, hf.name, hf.known, hf.vars, hf.functions.set name hg⟩ hs unbound

/-! ## Calls -/

variable {ps : List String} {args : List Value}

theorem Frames.bind (h : R.Frames ρ f f') (hps : ∀ p ∈ ps, p ∈ R.names) (args : List Value) :
    R.Frames ρ (f.bind ps args) (f'.bind (ps.map ρ) args) := by
  induction ps generalizing f f' args with
  | nil => exact h
  | cons p ps ih =>
    cases args with
    | nil => exact h
    | cons v args =>
      exact ih (h.assign (hps p List.mem_cons_self) v)
        (fun q hq => hps q (List.mem_cons_of_mem p hq)) args

/-- With an argument for each parameter, what the frame does not bind is no parameter. -/
theorem notMem_of_bind (hlen : args.length = ps.length)
    (h : (Frame.bind f ps args).vars.get? x = none) : x ∉ ps ∧ f.vars.get? x = none := by
  induction ps generalizing f args with
  | nil => exact ⟨List.not_mem_nil, h⟩
  | cons p ps ih =>
    cases args with
    | nil => cases hlen
    | cons v args =>
      obtain ⟨hnot, hnone⟩ := ih (f := f.assign p v) (Nat.succ.inj hlen) h
      have hset : (f.vars.set p v).get? x = none := hnone
      rw [Bindings.get?_set] at hset
      split at hset
      · cases hset
      · rename_i hxp
        exact ⟨fun hm => (List.mem_cons.1 hm).elim hxp hnot, hset⟩

/-- The scope that the body of a function starts in. -/
theorem Scopes.enter {σ : String → String} {ps' : List String} (h : R.Scopes ρ s s')
    (hps : R.Rebinds ρ σ ps ps') (hlen : args.length = ps.length) (name : String) :
    R.Scopes σ (Frame.bind { name := name } ps args :: s)
      (Frame.bind { name := name } ps' args :: s') := by
  have hempty : R.Frames σ { name := name } { name := name } :=
    ⟨hps.allowed, rfl, fun _ hp => absurd hp List.not_mem_nil, rfl, .nil⟩
  have hbound := hempty.bind hps.known args
  rw [← hps.params] at hbound
  exact .cons hbound h fun x hx hnone => hps.outside x hx (notMem_of_bind hlen hnone).1

end Renaming

end Reckon
