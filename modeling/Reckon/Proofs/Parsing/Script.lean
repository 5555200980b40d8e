import Reckon.Proofs.Parsing.Moves

/-!
# Parsers that ask for their tokens

A parser does not hold the tokens ahead of it: it asks for them.  What it asks is the current token, the one
behind it, whether the current one is an operator here, and to pass it.  Of a token it is told the kind, the text
and the place, but not which blanks stand around it (`Token.seen`); only the answer about an operator depends on
them.  A parser is thus a tree of questions, with a branch for every answer (`Script`).

Who answers keeps a state of its own (`Supply`).  A position, with all tokens ahead in a list, is such a state
(`Ahead.supply`), and for it every parser of the grammar is a script, since all that parsers are made of are
scripts (`Asks.uniform`).  Two supplies whose states are related, question by question, bring a script to the same
result (`Script.run_agree`), and what all answers keep holds wherever a script comes to
(`Script.Visits.invariant`).
-/

namespace Reckon

/-- Only two kinds of token are operators that are also signs. -/
theorem BinaryOp.kind_of_isSign {k : Token.Kind} {op : BinaryOp} (h : ofKind? k = some op)
    (hsign : op.isSign = true) : k = .plus ∨ k = .minus := by
  cases k <;> cases h <;> first | exact .inl rfl | exact .inr rfl | cases hsign

/-- Where tokens come from. -/
structure Supply (σ : Type) where
  current : σ → Token
  /-- The current token, a sign, joins its two neighbours. -/
  joins : σ → Bool
  /-- Past the current token. -/
  advance : σ → Except Error σ
  /-- The token behind the current one. -/
  following : σ → Except Error (Token × σ)
  /-- More than the number of tokens that are left. -/
  size : σ → Nat

/-- What a parser asks, by what it is told. -/
inductive Question : Type → Type where
  | current : Question Token
  /-- The operator that the current token is in this context, if it is one and binds more tightly. -/
  | operator (spacing : Parser.Spacing) (bound : Nat) : Question (Option BinaryOp)
  /-- To pass the current token. -/
  | advance : Question Token
  | following : Question Token
  /-- How many rounds a loop may take. -/
  | size : Question Nat

/-- A parser as the questions it asks. -/
inductive Script (α : Type) : Type 1 where
  | done (x : α)
  | fail (e : Error)
  /-- Refuses the current token, all of it. -/
  | refuse (fault : Token → SyntaxFault)
  | ask {β : Type} (q : Question β) (go : β → Script α)

namespace Supply

variable {σ : Type} (S : Supply σ)

/-- The operator that the current token is in this context, if it is one and binds more tightly than `bound`.
Blanks are looked at only for signs, and only where they matter. -/
def operator? (spacing : Parser.Spacing) (bound : Nat) (s : σ) : Option BinaryOp :=
  match BinaryOp.ofKind? (S.current s).kind with
  | some op =>
    if op.level < bound ∧ (op.isSign && spacing == .matters && !S.joins s) = false then some op else none
  | none => none

/-- An answer, and the state behind it. -/
def answer {β : Type} : Question β → σ → Except Error (β × σ)
  | .current, s => .ok ((S.current s).seen, s)
  | .operator spacing bound, s => .ok (S.operator? spacing bound s, s)
  | .advance, s => (S.advance s).map fun t => ((S.current s).seen, t)
  | .following, s => (S.following s).map fun r => (r.1.seen, r.2)
  | .size, s => .ok (S.size s, s)

/-- If the signs join their neighbours as the tokens say, the operators are those of the tokens. -/
theorem operator?_eq {s : σ}
    (h : (S.current s).kind = .plus ∨ (S.current s).kind = .minus → S.joins s = (S.current s).joinsNeighbours)
    (spacing : Parser.Spacing) (bound : Nat) :
    S.operator? spacing bound s = Parser.operator? spacing bound (S.current s) := by
  unfold operator? Parser.operator?
  cases hop : BinaryOp.ofKind? (S.current s).kind with
  | none => rfl
  | some op =>
    cases hsign : op.isSign with
    | false => simp only [hsign, Bool.false_and]
    | true => rw [h (BinaryOp.kind_of_isSign hop hsign)]

end Supply

/-- A position answers with the tokens ahead. -/
def Ahead.supply : Supply Ahead where
  current := Ahead.current
  joins a := a.current.joinsNeighbours
  advance := Ahead.advance
  following a := a.following.map fun t => (t, a)
  size := Ahead.size

/-! ## Running scripts -/

namespace Script

variable {α β γ σ τ : Type}

/-- Asks until the script ends. -/
def run (S : Supply σ) : Script α → σ → Except Error (α × σ)
  | done x, s => .ok (x, s)
  | fail e, _ => .error e
  | refuse fault, s => .error { cause := .grammar (fault (S.current s)), span := some (S.current s).span }
  | ask q go, s =>
    match S.answer q s with
    | .ok (x, t) => (go x).run S t
    | .error e => .error e

/-- One script, and then another that depends on its result. -/
def bind : Script α → (α → Script β) → Script β
  | done x, f => f x
  | fail e, _ => fail e
  | refuse fault, _ => refuse fault
  | ask q go, f => ask q fun x => (go x).bind f

theorem run_ask_ok {S : Supply σ} {q : Question γ} {go : γ → Script α} {x : γ} {s t : σ}
    (h : S.answer q s = .ok (x, t)) : (ask q go).run S s = (go x).run S t := by
  rw [run, h]

theorem run_ask_error {S : Supply σ} {q : Question γ} {go : γ → Script α} {e : Error} {s : σ}
    (h : S.answer q s = .error e) : (ask q go).run S s = .error e := by
  rw [run, h]

/-- The script that asks one question. -/
theorem run_question (S : Supply σ) (q : Question α) (s : σ) : (ask q done).run S s = S.answer q s := by
  cases h : S.answer q s with
  | error e => exact run_ask_error h
  | ok r => exact run_ask_ok h

theorem run_bind (S : Supply σ) (script : Script α) (f : α → Script β) (s : σ) :
    (script.bind f).run S s =
      match script.run S s with
      | .ok (x, t) => (f x).run S t
      | .error e => .error e := by
  induction script generalizing s with
  | done x => rfl
  | fail e => rfl
  | refuse fault => rfl
  | ask q go ih =>
    rw [bind]
    cases h : S.answer q s with
    | error e => rw [run_ask_error h, run_ask_error h]
    | ok r => rw [run_ask_ok h, run_ask_ok h, ih]

/-- The answer brings a script from one point of its run to the next. -/
def Step (S : Supply σ) (p q : Script α × σ) : Prop :=
  ∃ (γ : Type) (question : Question γ) (go : γ → Script α) (x : γ),
    p.1 = ask question go ∧ S.answer question p.2 = .ok (x, q.2) ∧ q.1 = go x

/-- The points of a run: what is left of the script, and the state. -/
def Visits (S : Supply σ) : Script α × σ → Script α × σ → Prop :=
  Relation.ReflTransGen (Step S)

/-- A run that gives a result has come to its end. -/
theorem visits_of_run {S : Supply σ} {script : Script α} {s t : σ} {x : α}
    (h : script.run S s = .ok (x, t)) : Visits S (script, s) (done x, t) := by
  induction script generalizing s with
  | done y =>
    cases h
    exact .refl
  | fail e => cases h
  | refuse fault => cases h
  | ask q go ih =>
    cases hanswer : S.answer q s with
    | error e =>
      rw [run_ask_error hanswer] at h
      cases h
    | ok r =>
      rw [run_ask_ok hanswer] at h
      exact .head ⟨_, q, go, r.1, rfl, hanswer, rfl⟩ (ih r.1 h)

/-- **What every answer keeps holds at all points of a run.** -/
theorem Visits.invariant {S : Supply σ} {Inv : σ → Prop}
    (h : ∀ {γ : Type} (q : Question γ) {s x t}, Inv s → S.answer q s = .ok (x, t) → Inv t)
    {p q : Script α × σ} (hvisits : Visits S p q) (hp : Inv p.2) : Inv q.2 := by
  induction hvisits with
  | refl => exact hp
  | tail _ hstep ih =>
    obtain ⟨γ, question, go, x, -, hanswer, -⟩ := hstep
    exact h question ih hanswer

/-- The same error, or results that are related. -/
inductive Agree (R : α → β → Prop) : Except Error α → Except Error β → Prop
  | ok {x : α} {y : β} (h : R x y) : Agree R (.ok x) (.ok y)
  | error (e : Error) : Agree R (.error e) (.error e)

theorem Agree.map {R : α → β → Prop} {R' : σ → τ → Prop} {f : α → σ} {g : β → τ} {x : Except Error α} {y}
    (h : Agree R x y) (hmap : ∀ {x y}, R x y → R' (f x) (g y)) : Agree R' (x.map f) (y.map g) := by
  cases h with
  | ok h => exact .ok (hmap h)
  | error e => exact .error e

/-- What comes out of the one is made into related results. -/
theorem Agree.of_map {R : σ → τ → Prop} {f : α → σ} {g : α → τ} (x : Except Error α)
    (h : ∀ x, R (f x) (g x)) : Agree R (x.map f) (x.map g) := by
  cases x with
  | ok x => exact .ok (h x)
  | error e => exact .error e

/-- What is given on the right is given on the left. -/
theorem Agree.exists_left {R : α → β → Prop} {x : Except Error α} {y : β} (h : Agree R x (.ok y)) :
    ∃ x', R x' y := by
  cases h with
  | ok h => exact ⟨_, h⟩

/-- The same result, in related states. -/
def Alongside (R : σ → τ → Prop) (r : α × σ) (r' : α × τ) : Prop :=
  r.1 = r'.1 ∧ R r.2 r'.2

/-- **Related states bring a script to the same result**, if they stay related with every answer. -/
theorem run_agree {S : Supply σ} {T : Supply τ} {R : σ → τ → Prop}
    (hcurrent : ∀ {s t}, R s t → S.current s = T.current t)
    (hanswer : ∀ {s t}, R s t → ∀ {γ : Type} (q : Question γ),
      Agree (Alongside R) (S.answer q s) (T.answer q t))
    (script : Script α) {s : σ} {t : τ} (h : R s t) :
    Agree (Alongside R) (script.run S s) (script.run T t) := by
  induction script generalizing s t with
  | done x => exact .ok ⟨rfl, h⟩
  | fail e => exact .error e
  | refuse fault =>
    unfold run
    rw [hcurrent h]
    exact .error _
  | ask q go ih =>
    have hq := hanswer h q
    unfold run
    generalize S.answer q s = x at hq ⊢
    generalize T.answer q t = y at hq ⊢
    cases hq with
    | error e => exact .error e
    | @ok x y h' =>
      obtain ⟨x, s⟩ := x
      obtain ⟨y, t⟩ := y
      obtain ⟨rfl, h'⟩ := h'
      exact ih x h'

end Script

/-! ## Parsers as scripts -/

namespace Parser

variable {α β : Type}

/-- The parser is a script that positions answer. -/
def Asks (p : Parser α) : Prop :=
  ∃ script : Script α, ∀ a, script.run Ahead.supply a = p a

/-- So is the parser that gives a token, of which the blanks around it are not seen. -/
def Sees (p : Parser Token) : Prop :=
  Asks (Token.seen <$> p)

namespace Asks

theorem bind {p : Parser α} {f : α → Parser β} (hp : Asks p) (hf : ∀ x, Asks (f x)) : Asks (p >>= f) := by
  obtain ⟨script, hscript⟩ := hp
  choose more hmore using hf
  refine ⟨script.bind more, fun a => ?_⟩
  rw [Script.run_bind, hscript, bind_run]
  cases p a with
  | error e => rfl
  | ok r => exact hmore r.1 r.2

theorem pure (x : α) : Asks (Pure.pure x : Parser α) :=
  ⟨.done x, fun _ => rfl⟩

theorem refuse (fault : SyntaxFault) (span : Option Span) : Asks (refuse fault span : Parser α) :=
  ⟨.fail _, fun _ => rfl⟩

theorem refuseHere (fault : Token → SyntaxFault) : Asks (refuseHere fault : Parser α) :=
  ⟨.refuse fault, fun _ => rfl⟩

theorem tooNested : Asks (tooNested : Parser α) :=
  refuseHere _

end Asks

/-- Behind a token that is seen, the blanks around it must not matter. -/
theorem Sees.bind {p : Parser Token} {f : Token → Parser β} (hp : Sees p) (hseen : ∀ t, f t.seen = f t)
    (hf : ∀ t, Asks (f t)) : Asks (p >>= f) := by
  have heq : Token.seen <$> p >>= f = p >>= f := by
    rw [bind_map_left]
    simp only [hseen]
  rw [← heq]
  exact Asks.bind hp hf

/-- A question to a position. -/
theorem Asks.question {p : Parser α} (q : Question α) (h : ∀ a, Ahead.supply.answer q a = p a) : Asks p :=
  ⟨.ask q .done, fun a => (Script.run_question _ q a).trans (h a)⟩

theorem sees_current : Sees current :=
  .question .current fun _ => rfl

theorem sees_advance : Sees advance := by
  refine .question .advance fun a => ?_
  show a.advance.map (fun b => (a.current.seen, b)) = _
  rw [map_eq_pure_bind, bind_run, advance_run]
  cases a.advance <;> rfl

theorem sees_following : Sees following := by
  refine .question .following fun a => ?_
  show (a.following.map fun t => (t, a)).map (fun r => (r.1.seen, r.2)) = _
  rw [map_eq_pure_bind, bind_run, following_run]
  cases a.following <;> rfl

namespace Asks

/-- What is done with an operator may depend on the blanks around the current token, and nothing else may. -/
theorem operator {p : Parser α} {f : BinaryOp → Parser α} (spacing : Spacing) (bound : Nat) (hp : Asks p)
    (hf : ∀ op, Asks (f op)) :
    Asks (do
      match operator? spacing bound (← Parser.current) with
      | none => p
      | some op => f op) := by
  obtain ⟨without, hwithout⟩ := hp
  choose script hscript using hf
  refine ⟨.ask (.operator spacing bound) fun o => o.elim without script, fun a => ?_⟩
  show (Option.elim (operator? spacing bound a.current) without script).run Ahead.supply a = _
  rw [bind_run_ok (current_run a)]
  cases operator? spacing bound a.current with
  | none => exact hwithout a
  | some op => exact hscript op a

/-- A loop may depend on how many tokens are left. -/
theorem sized {f : Nat → Parser α} (h : ∀ n, Asks (f n)) : Asks (do f (← get).size) := by
  choose script hscript using h
  exact ⟨.ask .size script, fun a => hscript a.size a⟩

/-- To be a script is a matter of the pieces. -/
theorem uniform : Uniform fun _ p _ => Asks p where
  pure := pure
  bind := bind
  current := sees_current.bind
  advance := sees_advance.bind
  following := sees_following.bind
  refuse := refuse
  refuseHere := refuseHere
  tooNested _ := tooNested
  operator := operator
  sized := sized

/-- **The parser of programs is a script.** -/
theorem program : Asks Parser.program :=
  uniform.program

end Asks

end Parser

end Reckon
