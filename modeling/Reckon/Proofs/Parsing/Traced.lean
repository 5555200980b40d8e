import Reckon.Proofs.Parsing.Outcomes

/-!
# Spans come from tokens

A parser puts the spans of its trees, and those of its errors, together from the spans of tokens, and
joining two spans keeps where the first one starts.  So what holds of the places where tokens start holds
of the start of every span that comes out (`Node.traced_of_tokens`).  Every node of a tree has such a
span, and a literal in it is what a single token can say, which is never a matrix.

A parser fails in one of two ways: it refuses the tokens, at such a place, or it meets the error that
the tokens end in, and then this is the error.
-/

namespace Reckon

variable {P : String × Int × Int → Prop}

namespace Node

/-- The node is a literal. -/
def isLiteral : Node → Bool
  | literal _ _ => true
  | _ => false

/-- The node can be traced to tokens that start where `P` says. -/
structure TracedAt (P : String × Int × Int → Prop) (n : Node) : Prop where
  place : Known P n.span
  notMatrix : ∀ m s, n ≠ .literal (.matrix m) s

/-- Every node in the tree can be traced, those in bodies included. -/
def Traced (P : String × Int × Int → Prop) (n : Node) : Prop :=
  ∀ around e, n.Stands around e → e.TracedAt P

end Node

/-- Every token ahead starts where `P` says. -/
structure Ahead.Traced (P : String × Int × Int → Prop) (a : Ahead) : Prop where
  current : P a.current.span.start
  rest : ∀ t ∈ a.rest, P t.span.start
  ending : ∀ t, a.ending = .ok t → P t.span.start

namespace Ahead

variable {a b : Ahead} {place : Option Span}

theorem Traced.advance (h : a.Traced P) (hb : a.advance = .ok b) : b.Traced P := by
  rcases advance_cases hb with ⟨-, rfl⟩ | ⟨-, t, rest, hrest, rfl⟩ | ⟨-, hrest, t, hend, rfl⟩
  · exact h
  · have htokens : ∀ u ∈ t :: rest, P u.span.start := hrest ▸ h.rest
    refine ⟨htokens t List.mem_cons_self, fun u hu => ?_, h.ending⟩
    exact htokens u (List.mem_cons_of_mem t hu)
  · exact ⟨h.ending t hend, h.rest, h.ending⟩

theorem Traced.reaches (h : a.Traced P) (hb : a.Reaches b) : b.Traced P := by
  induction hb with
  | refl => exact h
  | tail _ hadvance ih => exact ih.advance hadvance

/-- What starts with a token ahead starts where `P` says. -/
theorem Traced.known (h : a.Traced P) (hplace : Known a.Has place) : Known P place :=
  hplace.mono fun _ ⟨_, hr, hstart⟩ => hstart ▸ (h.reaches hr).current

/-- Taking the first token fails only where the tokens end. -/
theorem start_cases {s : TokenStream} (htokens : ∀ t ∈ s.tokens, P t.span.start)
    (hending : ∀ t, s.ending = .ok t → P t.span.start) :
    (∃ a, start s = .ok a ∧ a.Traced P ∧ a.ending = s.ending) ∨
      ∃ e, start s = .error e ∧ s.ending = .error e := by
  unfold start
  cases ht : s.tokens with
  | cons t rest =>
    rw [ht] at htokens
    refine .inl ⟨_, rfl, ⟨htokens t List.mem_cons_self, fun u hu => ?_, hending⟩, rfl⟩
    exact htokens u (List.mem_cons_of_mem t hu)
  | nil =>
    cases hend : s.ending with
    | error e => exact .inr ⟨e, rfl, rfl⟩
    | ok t =>
      have hfirst := hending t hend
      refine .inl ⟨_, rfl, ⟨hfirst, fun u hu => absurd hu List.not_mem_nil, fun u hu => ?_⟩, rfl⟩
      cases hu
      exact hfirst

end Ahead

/-- The error is that the grammar does not allow something, at such a place. -/
def Refused (P : String × Int × Int → Prop) (e : Error) : Prop :=
  ∃ fault, e.cause = .grammar fault ∧ Known P e.span

namespace Reading

variable {p : Portion} {a b : Ahead} {xs : List Node}

/-- No token says a matrix. -/
theorem ne_matrix (h : Reading p a xs b) : ∀ x ∈ xs, ∀ m s, x ≠ .literal (.matrix m) s := by
  induction h with
  | nil | sign => exact nofun
  | append _ _ ih ih' => exact List.forall_mem_append.2 ⟨ih, ih'⟩
  | head _ _ _ _ ih | line _ ih => exact ih
  | _ => exact List.forall_mem_singleton.2 nofun

theorem tracedAt (h : Reading p a xs b) (ha : a.Traced P) : ∀ x ∈ xs, x.TracedAt P :=
  fun x hx => ⟨ha.known (h.starts x hx), h.ne_matrix x hx⟩

end Reading

/-- If the tokens of a stream start where `P` says, so does every span of the program that they are, or
of the refusal; any other error is the one that the tokens end in. -/
theorem Node.traced_of_tokens {s : TokenStream} (htokens : ∀ t ∈ s.tokens, P t.span.start)
    (hending : ∀ t, s.ending = .ok t → P t.span.start) :
    (∀ program, ofTokens s = .ok program → program.Traced P) ∧
      ∀ e, ofTokens s = .error e → s.ending = .error e ∨ Refused P e := by
  rcases Ahead.start_cases htokens hending with ⟨a, ha, htraced, hend⟩ | ⟨e, he, hend⟩
  · have hrun : ofTokens s = (Parser.program a).map Prod.fst := by
      unfold ofTokens
      rw [ha]
      show (Parser.program a >>= fun r => pure r.1) = _
      cases Parser.program a <;> rfl
    rw [hrun, ← hend]
    constructor
    · intro program h
      rcases hp : Parser.program a with e | ⟨n, b⟩ <;> rw [hp] at h <;> cases h
      obtain ⟨-, xs, rfl, hread⟩ := Parser.reads_of_program hp
      intro around e he
      rcases hread.block_contains he.contains with rfl | ⟨q, c, d, hr, he⟩
      · exact ⟨.of_start htraced.current, nofun⟩
      · exact he.tracedAt (htraced.reaches hr) e List.mem_cons_self
    · intro e h
      rcases hp : Parser.program a with e' | r <;> rw [hp] at h <;> cases h
      have hstops : Stops a False e := Parser.stops_of_program False.elim hp
      rcases hstops with hend | ⟨fault, hcause, hplace, -⟩
      · exact .inl hend
      · exact .inr ⟨fault, hcause, htraced.known hplace⟩
  · have hrun : ofTokens s = .error e := by
      unfold ofTokens
      rw [he]
      rfl
    rw [hrun]
    constructor
    · intro program h
      cases h
    · intro e' h
      cases h
      exact .inl hend

end Reckon
