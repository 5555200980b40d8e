import Reckon.Eval.Basic

/-!
# Runs of evaluations

What the building blocks of the evaluator do with a machine, stated once, and when a run ends in a
given mishap (`Ends`).  A mishap is never caught and never gets a place, so a run of a composed
evaluation ends in one exactly if the run of one of its parts does.  Composed evaluations whose parts
agree where they are run agree.
-/

namespace Reckon.Eval

section Steps

variable {ε σ α β : Type} {s s₁ : σ}

/-- One step after the other, with any kind of state and of failure. -/
theorem bind_run (x : ExceptT ε (StateM σ) α) (f : α → ExceptT ε (StateM σ) β) (s : σ) :
    (x >>= f) s =
      match x s with
      | (.ok a, s₁) => f a s₁
      | (.error e, s₁) => (.error e, s₁) := by
  show (ExceptT.bindCont f (x s).1) (x s).2 = _
  rcases x s with ⟨_ | a, s₁⟩ <;> rfl

theorem bind_run_ok {x : ExceptT ε (StateM σ) α} {f : α → ExceptT ε (StateM σ) β} {a : α}
    (h : x s = (.ok a, s₁)) : (x >>= f) s = f a s₁ := by
  rw [bind_run, h]

theorem bind_run_error {x : ExceptT ε (StateM σ) α} {f : α → ExceptT ε (StateM σ) β}
    {e : ε} (h : x s = (.error e, s₁)) : (x >>= f) s = (.error e, s₁) := by
  rw [bind_run, h]

/-- Two steps give a result only if both do. -/
theorem bind_eq_ok {x : ExceptT ε (StateM σ) α} {f : α → ExceptT ε (StateM σ) β} {b : β}
    {s₂ : σ} (h : (x >>= f) s = (.ok b, s₂)) :
    ∃ a s₁, x s = (.ok a, s₁) ∧ f a s₁ = (.ok b, s₂) := by
  rw [bind_run] at h
  rcases hx : x s with ⟨e | a, s₁⟩
  · rw [hx] at h
    cases h
  · rw [hx] at h
    exact ⟨a, s₁, rfl, h⟩

end Steps

variable {α β : Type} {m : Machine} {c : Mishap}

@[simp]
theorem pure_run (a : α) (m : Machine) : (pure a : Eval α) m = (.ok a, m) := rfl

@[simp]
theorem get_run (m : Machine) : (get : Eval Machine) m = (.ok m, m) := rfl

@[simp]
theorem modify_run (f : Machine → Machine) (m : Machine) :
    (modify f : Eval Unit) m = (.ok (), f m) := rfl

@[simp]
theorem note_run (e : Event) (m : Machine) : note e m = (.ok (), { m with log := e :: m.log }) := rfl

theorem located_run (span : Option Span) (x : Eval α) (m : Machine) :
    located span x m = ((x m).1.mapError (Failure.locate span), (x m).2) := by
  show ((x m).1.mapError _, _) = _
  rfl

/-! ## Calls -/

/-- The machine that the body of a function starts with. -/
def entered (name : String) (params : List String) (args : List Value) (home : Scope)
    (log : List Event) : Machine where
  frame := Frame.bind { name := name } params args
  log := .called name params.length home.length :: .scopeOpened name home.length :: log

/-- What a call gives back for the outcome of its body: the last value. -/
def returned (name : String) (bodySpan : Option Span) (r : Result) : Except Failure Value :=
  match r.values.getLast? with
  | some v => .ok v
  | none => .error (.placed (.evaluation (.nothingReturned name)) bodySpan)

section Call

variable {ev : Scope → Node → Eval Result} {outer home : Scope} {name : String} {args : List Value}
  {span bodySpan : Option Span} {params : List String} {body : List Node}

theorem call_undefined (hfound : Scope.findFunction? (m.frame :: outer) name = none) :
    call ev outer name args span m = (.error (.placed (.undefinedFunction name) span), m) := by
  unfold call
  rw [bind_run_ok (get_run m), hfound]
  rfl

theorem call_arity {function : Function}
    (hfound : Scope.findFunction? (m.frame :: outer) name = some (function, home))
    (harity : args.length ≠ function.arity) :
    call ev outer name args span m =
      (.error (.placed (.arityMismatch name function.arity args.length) span), m) := by
  unfold call
  rw [bind_run_ok (get_run m), hfound]
  dsimp only
  rw [if_neg harity]
  rfl

theorem call_native {b : Builtin} {v : Value}
    (hfound : Scope.findFunction? (m.frame :: outer) name = some (.native b, home)) :
    call ev outer name [v] span m = (b.apply v, { m with log := .nativeCalled name :: m.log }) := by
  unfold call
  rw [bind_run_ok (get_run m), hfound]
  rfl

/-- A call of a function of the program runs its body, and then has its own frame back. -/
theorem call_user
    (hfound : Scope.findFunction? (m.frame :: outer) name = some (.user params body bodySpan, home))
    (harity : args.length = params.length) :
    call ev outer name args span m =
      ((ev home (.block body bodySpan) (entered name params args home m.log)).1.bind
          (returned name bodySpan),
        { (ev home (.block body bodySpan) (entered name params args home m.log)).2 with
          frame := m.frame }) := by
  have hpos : args.length = (Function.user params body bodySpan).arity := harity
  unfold call
  rw [bind_run_ok (get_run m), hfound]
  dsimp only
  rw [if_pos hpos, bind_run_ok (note_run _ _), bind_run_ok (note_run _ _)]
  dsimp only
  have hbody : inFrame (Frame.bind { name := name } params args) (ev home (.block body bodySpan))
      ⟨m.frame, .called name params.length home.length :: .scopeOpened name home.length :: m.log⟩ =
        ((ev home (.block body bodySpan) (entered name params args home m.log)).1,
          { (ev home (.block body bodySpan) (entered name params args home m.log)).2 with
            frame := m.frame }) := rfl
  rw [bind_run, hbody]
  rcases ev home (.block body bodySpan) (entered name params args home m.log) with ⟨e | r, m₁⟩
  · rfl
  · unfold returned
    simp only [Except.bind]
    cases r.values.getLast? <;> rfl

/-- What a call can do: refuse, run a native function, or run a function of the program. -/
theorem call_cases (ev : Scope → Node → Eval Result) (outer : Scope) (name : String)
    (args : List Value) (span : Option Span) (m : Machine) :
    (∃ e, call ev outer name args span m = (.error (.reported e), m)) ∨
    (∃ b v, call ev outer name args span m =
      (Builtin.apply b v, { m with log := .nativeCalled name :: m.log })) ∨
    ∃ params body bodySpan home,
      Scope.findFunction? (m.frame :: outer) name = some (.user params body bodySpan, home) ∧
      args.length = params.length := by
  cases hfound : Scope.findFunction? (m.frame :: outer) name with
  | none => exact .inl ⟨_, call_undefined hfound⟩
  | some found =>
    obtain ⟨function, home⟩ := found
    by_cases harity : args.length = function.arity
    · cases function with
      | user params body bodySpan => exact .inr (.inr ⟨params, body, bodySpan, home, rfl, harity⟩)
      | native b =>
        obtain ⟨v, rfl⟩ := List.length_eq_one_iff.1 harity
        exact .inr (.inl ⟨b, v, call_native hfound⟩)
    · exact .inl ⟨_, call_arity hfound harity⟩

/-- A call has its frame back. -/
theorem call_frame (ev : Scope → Node → Eval Result) (outer : Scope) (name : String)
    (args : List Value) (span : Option Span) (m : Machine) :
    (call ev outer name args span m).2.frame = m.frame := by
  rcases call_cases ev outer name args span m with ⟨e, he⟩ | ⟨b, v, hb⟩ |
    ⟨params, body, bodySpan, home, hfound, harity⟩
  · rw [he]
  · rw [hb]
  · rw [call_user hfound harity]

end Call

/-! ## Runs that agree -/

theorem bind_agree {x x' : Eval α} {f f' : α → Eval β} (hx : x' m = x m)
    (hf : ∀ a m₁, x m = (.ok a, m₁) → f' a m₁ = f a m₁) : (x' >>= f') m = (x >>= f) m := by
  rw [bind_run, bind_run, hx]
  rcases hxm : x m with ⟨e | a, m₁⟩
  · rfl
  · exact hf a m₁ hxm

/-- A list is worked through alike if its elements are, each where the ones before it lead. -/
theorem mapM_agree {f f' : α → Eval β} {xs : List α}
    (h : ∀ done x rest ys m₁, xs = done ++ x :: rest → done.mapM f m = (.ok ys, m₁) →
      f' x m₁ = f x m₁) : xs.mapM f' m = xs.mapM f m := by
  induction xs generalizing m with
  | nil => rfl
  | cons x xs ih =>
    rw [List.mapM_cons, List.mapM_cons]
    refine bind_agree (h [] x xs [] m rfl rfl) fun y m₁ hy => ?_
    refine bind_agree (ih fun done z rest ys m₂ hxs hdone => ?_) fun ys m₂ _ => rfl
    have hcons : (x :: done).mapM f m = (.ok (y :: ys), m₂) := by
      rw [List.mapM_cons, bind_run_ok hy, bind_run_ok hdone, pure_run]
    exact h (x :: done) z rest (y :: ys) m₂ (by rw [hxs, List.cons_append]) hcons

section Parts

variable {ev ev' : Node → Eval Result} {node : Node}

theorem valueOf_agree (h : ev' node m = ev node m) : valueOf ev' node m = valueOf ev node m :=
  bind_agree h fun _ _ _ => rfl

theorem cell_agree (h : ev' node m = ev node m) : cell ev' node m = cell ev node m :=
  bind_agree (valueOf_agree h) fun _ _ _ => rfl

end Parts

/-- A call needs of the evaluator only what it does with the body of the function. -/
theorem call_agree {ev ev' : Scope → Node → Eval Result} {outer : Scope} {name : String}
    {args : List Value} {span : Option Span}
    (h : ∀ params body bodySpan home,
      Scope.findFunction? (m.frame :: outer) name = some (.user params body bodySpan, home) →
      args.length = params.length →
      ev' home (.block body bodySpan) (entered name params args home m.log) =
        ev home (.block body bodySpan) (entered name params args home m.log)) :
    call ev' outer name args span m = call ev outer name args span m := by
  cases hfound : Scope.findFunction? (m.frame :: outer) name with
  | none => rw [call_undefined hfound, call_undefined hfound]
  | some found =>
    obtain ⟨function, home⟩ := found
    by_cases harity : args.length = function.arity
    · cases function with
      | user params body bodySpan =>
        rw [call_user hfound harity, call_user hfound harity,
          h params body bodySpan home hfound harity]
      | native b =>
        obtain ⟨v, rfl⟩ := List.length_eq_one_iff.1 harity
        rw [call_native hfound, call_native hfound]
    · rw [call_arity hfound harity, call_arity hfound harity]

/-! ## Ending in a mishap -/

/-- The run ends in this mishap. -/
def Ends (c : Mishap) (x : Eval α) (m : Machine) : Prop :=
  (x m).1 = .error (.mishap c)

theorem ends_bind {x : Eval α} {f : α → Eval β} :
    Ends c (x >>= f) m ↔ Ends c x m ∨ ∃ a m₁, x m = (.ok a, m₁) ∧ Ends c (f a) m₁ := by
  unfold Ends
  rw [bind_run]
  rcases hx : x m with ⟨e | a, m₁⟩
  · constructor
    · intro h
      cases h
      exact .inl rfl
    · rintro (h | ⟨a, m₂, h, -⟩)
      · cases h
        rfl
      · cases h
  · constructor
    · exact fun h => .inr ⟨a, m₁, rfl, h⟩
    · rintro (h | ⟨b, m₂, h, hb⟩)
      · cases h
      · cases h
        exact hb

theorem not_ends_pure (a : α) : ¬ Ends c (pure a : Eval α) m := by
  rintro ⟨⟩

theorem not_ends_failAt (cause : Cause) (span : Option Span) :
    ¬ Ends c (failAt cause span : Eval α) m := by
  rintro ⟨⟩

theorem ends_ofExcept {x : Except Failure α} :
    Ends c (ofExcept x) m ↔ x = .error (.mishap c) :=
  Iff.rfl

/-- What only passes a result on ends in no mishap of its own. -/
theorem ends_bind_pure {x : Eval α} {f : α → β} :
    Ends c (x >>= fun a => pure (f a)) m ↔ Ends c x m := by
  rw [ends_bind]
  refine ⟨fun h => h.resolve_right ?_, .inl⟩
  rintro ⟨a, m₁, -, h⟩
  exact not_ends_pure _ h

theorem ends_located {span : Option Span} {x : Eval α} :
    Ends c (located span x) m ↔ Ends c x m := by
  unfold Ends
  rw [located_run]
  rcases (x m).1 with (e | b) | a
  · exact ⟨nofun, nofun⟩
  · exact Iff.rfl
  · exact ⟨nofun, nofun⟩

/-- A list is worked through up to its first mishap. -/
theorem ends_mapM {f : α → Eval β} {xs : List α} :
    Ends c (xs.mapM f) m ↔ ∃ done x rest ys m₁, xs = done ++ x :: rest ∧
      done.mapM f m = (.ok ys, m₁) ∧ Ends c (f x) m₁ := by
  induction xs generalizing m with
  | nil =>
    constructor
    · exact fun h => absurd h (not_ends_pure _)
    · rintro ⟨done, x, rest, ys, m₁, h, -⟩
      exact absurd h.symm (by simp)
  | cons x xs ih =>
    rw [List.mapM_cons, ends_bind]
    constructor
    · rintro (h | ⟨y, m₁, hy, h⟩)
      · exact ⟨[], x, xs, [], m, rfl, rfl, h⟩
      · rw [ends_bind_pure, ih] at h
        obtain ⟨done, z, rest, ys, m₂, rfl, hd, hz⟩ := h
        refine ⟨x :: done, z, rest, y :: ys, m₂, rfl, ?_, hz⟩
        rw [List.mapM_cons, bind_run_ok hy, bind_run_ok hd, pure_run]
    · rintro ⟨done, z, rest, ys, m₁, h, hd, hz⟩
      cases done with
      | nil =>
        cases h
        cases hd
        exact .inl hz
      | cons d done =>
        -- The first one gave a result, and left the machine for the others.
        obtain ⟨rfl, rfl⟩ := List.cons.inj h
        rw [List.mapM_cons] at hd
        obtain ⟨y, m₂, hy, hd⟩ := bind_eq_ok hd
        obtain ⟨ys', m₃, hys, hd⟩ := bind_eq_ok hd
        cases hd
        refine .inr ⟨y, m₂, hy, ?_⟩
        rw [ends_bind_pure, ih]
        exact ⟨done, z, rest, ys', m₁, rfl, hys, hz⟩

section Parts

variable {ev : Node → Eval Result} {node : Node}

theorem ends_valueOf : Ends c (valueOf ev node) m ↔ Ends c (ev node) m := by
  rw [valueOf, ends_bind]
  refine ⟨fun h => h.resolve_right ?_, .inl⟩
  rintro ⟨r, m₁, -, h⟩
  cases r <;> cases h

theorem ends_cell : Ends c (cell ev node) m ↔ Ends c (ev node) m := by
  rw [cell, ends_bind, ends_valueOf]
  refine ⟨fun h => h.resolve_right ?_, .inl⟩
  rintro ⟨v, m₁, -, h⟩
  cases hv : v.number? <;> rw [hv] at h <;> cases h

end Parts

end Reckon.Eval
