import Reckon.Proofs.Lexing.Position
import Reckon.Proofs.Parsing.Moves
import Reckon.Proofs.Syntax.Bare

/-!
# A text as a part of another one

The tokens of a text come again in a longer one: the same kinds and texts, possibly with other blanks
around them and at other places, but with the same operators and with units at the same numbers
(`Token.Retold`).  Behind them stands another token than the end of input.  What can it change?  An
expression ends before the end of input, and in the longer text it may go on: with an operator, if the
token is one in this context, with a parenthesis that makes a name a call, and so on.  `Excerpt` and
`Excerpt.Tells` say that none of this happens where the text ends.

A parser that stands in the text then has a position in the longer one that echoes it (`Excerpt.Echo`), and
where it gives a result in the text it gives the same there, up to spans (`Excerpt.Carries`).  This judgment
has two conditions.  The first is about the position where the parser starts.  The second, `reach`, is what
has to be known if the parser comes to the end of the text: a parser for what stands between brackets never
does so in a run that goes on to the closing one, and then `reach` can be `False`.

The longer text allows deeper nesting and longer loops, so each rule is compared with itself at two
bounds.  The rules are followed in the next module; here are the small parsers and the ways to put them
together.
-/

namespace Reckon

/-! ## Trees that differ in their spans -/

namespace Node

variable {n n' : Node}

theorem isEmpty_bare (n : Node) : n.bare.isEmpty = n.isEmpty := by
  cases n <;> rfl

theorem isEmpty_eq_of_bare (h : n'.bare = n.bare) : n'.isEmpty = n.isEmpty := by
  rw [← isEmpty_bare, h, isEmpty_bare]

theorem identifier?_bare (n : Node) : n.bare.identifier? = n.identifier?.map Identifier.bare := by
  cases n <;> rfl

end Node

/-! ## Tokens that do the same -/

namespace Token

/-- The second token does for a parser what the first one does, but for its place. -/
structure Alike (t t' : Token) : Prop where
  kind : t'.kind = t.kind
  text : t'.text = t.text
  operator : ∀ spacing bound, Parser.operator? spacing bound t' = Parser.operator? spacing bound t

theorem Alike.refl (t : Token) : t.Alike t :=
  ⟨rfl, rfl, fun _ _ => rfl⟩

/-- Tokens that are no signs, or that join their neighbours alike, are the same operator. -/
theorem Alike.of_joins {t t' : Token} (hkind : t'.kind = t.kind) (htext : t'.text = t.text)
    (hjoins : t.kind = .plus ∨ t.kind = .minus → t'.joinsNeighbours = t.joinsNeighbours) :
    t.Alike t' := by
  refine ⟨hkind, htext, fun spacing bound => ?_⟩
  unfold Parser.operator?
  rw [hkind]
  by_cases hsign : t.kind = .plus ∨ t.kind = .minus
  · rw [hjoins hsign]
  · cases hk : t.kind <;> simp_all [BinaryOp.ofKind?, BinaryOp.isSign, BinaryOp.level]

/-- The tokens of the second list do what those of the first one do, and units stand behind the same
numbers.  In the second list `next` follows, in the first one nothing does. -/
inductive Retold (next : Token) : List Token → List Token → Prop where
  | nil : Retold next [] []
  | cons {t t' : Token} {ts ts' : List Token} (alike : t.Alike t')
      (unit : t.kind = .number → (t'.HasUnit (ts'.headD next) ↔ ∃ u ∈ ts.head?, t.HasUnit u))
      (tail : Retold next ts ts') : Retold next (t :: ts) (t' :: ts')

theorem Retold.length_eq {next : Token} {ts ts' : List Token} (h : Retold next ts ts') :
    ts'.length = ts.length := by
  induction h with
  | nil => rfl
  | cons _ _ _ ih => rw [List.length_cons, List.length_cons, ih]

/-- The last token is a name, and not the unit of a number. -/
def EndsInName (ts : List Token) : Prop :=
  ∃ us x, ts = us ++ [x] ∧ x.kind = .identifier ∧ ∀ t ∈ us.getLast?, ¬ (t.kind = .number ∧ t.HasUnit x)

theorem EndsInName.cons {t : Token} {ts : List Token} (h : EndsInName ts)
    (ht : ∀ u, ts = [u] → ¬ (t.kind = .number ∧ t.HasUnit u)) : EndsInName (t :: ts) := by
  obtain ⟨us, x, rfl, hx, hlast⟩ := h
  refine ⟨t :: us, x, rfl, hx, fun u hu => ?_⟩
  cases us with
  | nil =>
    cases hu
    exact ht x rfl
  | cons v us => exact hlast u (by simpa using hu)

/-- The tokens are an expression. -/
def FormExpression (ts : List Token) : Prop :=
  ∃ n last x b, Parser.expr n .ignored (Ahead.before ts last) = .ok (x, b) ∧ x.isEmpty = false ∧
    b.current.kind = .eof

/-- The tokens end with the body of a definition that is not between braces. -/
def EndsInBody (ts : List Token) : Prop :=
  ∃ us e vs, ts = us ++ e :: vs ∧ (e.kind = .assign ∨ e.kind = .fatArrow) ∧ FormExpression vs

theorem EndsInBody.cons {ts : List Token} (h : EndsInBody ts) (t : Token) : EndsInBody (t :: ts) := by
  obtain ⟨us, e, vs, rfl, he, hvs⟩ := h
  exact ⟨t :: us, e, vs, rfl, he, hvs⟩

/-- The kinds of token that go on with what stands before them: a condition, a definition and its block,
an assignment. -/
def continuing : List Token.Kind :=
  [.question, .fatArrow, .lbrace, .assign, .plusAssign, .minusAssign, .starAssign, .slashAssign]

end Token

/-! ## Positions -/

/-- A text that is a part of a longer one. -/
structure Excerpt where
  /-- The tokens behind it. -/
  behind : List Token
  /-- The end of input of the text on its own. -/
  last : Token
  /-- The end of input of the longer text. -/
  lastThere : Token
  last_kind : last.kind = .eof
  lastThere_kind : lastThere.kind = .eof
  next_kind : (Ahead.before behind lastThere).current.kind ∉ Token.continuing

namespace Excerpt

open Ahead (before)

variable {X : Excerpt} {a a' b : Ahead} {t t' : Token} {ts ts' : List Token}

/-- What stands in the longer text where the excerpt ends. -/
def next (X : Excerpt) : Token :=
  (before X.behind X.lastThere).current

/-- An expression ends there. -/
def Ends (X : Excerpt) (spacing : Parser.Spacing) : Prop :=
  ∀ bound, Parser.operator? spacing bound X.next = none

/-- A line ends there. -/
def EndsLine (X : Excerpt) : Prop :=
  X.next.kind = .newline ∨ X.next.kind = .eof

/-- If what follows is an expression up to the end of the excerpt, it ends there also as the body of a
definition, in which blanks do not matter. -/
def OpensBody (X : Excerpt) (a : Ahead) : Prop :=
  ∀ n x b, Parser.expr n .ignored a = .ok (x, b) → x.isEmpty = false → b.current.kind = .eof →
    X.Ends .ignored

/-- The tokens of the excerpt and those of the longer text.  A number is told together with its unit:
where a name stands last, a parenthesis behind it would make it a call, but not if it is a unit. -/
inductive Tells (X : Excerpt) : List Token → List Token → Prop where
  | nil : X.Tells [] []
  | token {t t' : Token} {ts ts' : List Token} (alike : t.Alike t')
      (kind : t.kind ≠ .eof ∧ t.kind ≠ .number)
      (name : t.kind = .identifier → ts = [] → X.next.kind ≠ .lparen)
      (body : t.kind = .assign ∨ t.kind = .fatArrow → X.OpensBody (before ts X.last))
      (tail : X.Tells ts ts') : X.Tells (t :: ts) (t' :: ts')
  | number {t t' : Token} {ts ts' : List Token} (alike : t.Alike t') (kind : t.kind = .number)
      (alone : ¬ t.HasUnit (before ts X.last).current)
      (alone' : ¬ t'.HasUnit (before (ts' ++ X.behind) X.lastThere).current)
      (tail : X.Tells ts ts') : X.Tells (t :: ts) (t' :: ts')
  | measure {t t' u u' : Token} {ts ts' : List Token} (alike : t.Alike t') (kind : t.kind = .number)
      (unit : t.HasUnit u) (unit' : t'.HasUnit u') (text : u'.text = u.text)
      (tail : X.Tells ts ts') : X.Tells (t :: u :: ts) (t' :: u' :: ts')

theorem next_ne (X : Excerpt) {k : Token.Kind} (hk : k ∈ Token.continuing) : X.next.kind ≠ k :=
  fun h => X.next_kind (h ▸ hk)

/-- No assignment goes on with what is behind the excerpt. -/
theorem assignment?_next (X : Excerpt) : assignment? X.next.kind = none := by
  have hnone : ∀ k, k ∉ Token.continuing → assignment? k = none := by
    intro k hk
    cases k <;> simp [Token.continuing, assignment?] at hk ⊢
  exact hnone _ X.next_kind

theorem current_there (X : Excerpt) (ts' : List Token) :
    (before (ts' ++ X.behind) X.lastThere).current = ts'.headD X.next := by
  cases ts' <;> rfl

theorem Ends.of_endsLine (h : X.EndsLine) (spacing : Parser.Spacing) : X.Ends spacing := by
  intro bound
  unfold Parser.operator?
  rcases h with hk | hk <;> rw [hk] <;> rfl

/-- Tokens that are told again tell what stands in the excerpt, unless what is behind it goes on with its
last name or with its last definition. -/
theorem Tells.of_retold (h : Token.Retold X.next ts ts') (hkinds : ∀ t ∈ ts, t.kind ≠ .eof)
    (hname : X.next.kind = .lparen → ¬ Token.EndsInName ts)
    (hbody : Token.EndsInBody ts → X.Ends .ignored) : X.Tells ts ts' := by
  -- A unit is told with its number, so the induction goes over one or two tokens.
  induction hn : ts.length using Nat.strong_induction_on generalizing ts ts' with
  | _ n ih =>
    cases h with
    | nil => exact .nil
    | @cons t t' ts ts' halike hunit htail =>
      obtain ⟨hk, hks⟩ := List.forall_mem_cons.1 hkinds
      rw [List.length_cons] at hn
      have hbody' : Token.EndsInBody ts → X.Ends .ignored := fun hends => hbody (hends.cons t)
      by_cases hmeasure : t.kind = .number ∧ ∃ u ∈ ts.head?, t.HasUnit u
      · obtain ⟨hnumber, u, hu, hunits⟩ := hmeasure
        have hunits' := (hunit hnumber).2 ⟨u, hu, hunits⟩
        cases htail with
        | nil => cases hu
        | @cons u u' ts ts' halike' _ htail =>
          cases hu
          rw [List.length_cons] at hn
          refine .measure halike hnumber hunits hunits' halike'.text
            (ih ts.length (by omega) htail (List.forall_mem_cons.1 hks).2 (fun hparen hends => ?_)
              (fun hends => hbody' (hends.cons u)) rfl)
          refine hname hparen ((hends.cons fun v _ hv => ?_).cons fun v hv => ?_)
          · rw [hunits.1] at hv
            cases hv.1
          · obtain ⟨us, x, hus, -⟩ := hends
            rw [hus] at hv
            simp at hv
      · have htells : X.Tells ts ts' := by
          refine ih ts.length (by omega) htail hks (fun hparen hends => ?_) hbody' rfl
          refine hname hparen (hends.cons fun u hu hmeasured => hmeasure ⟨hmeasured.1, u, ?_, hmeasured.2⟩)
          rw [hu]
          rfl
        by_cases hnumber : t.kind = .number
        · have hnone : ¬ ∃ u ∈ ts.head?, t.HasUnit u := fun hu => hmeasure ⟨hnumber, hu⟩
          refine .number halike hnumber (fun hu => ?_) (fun hu => ?_) htells
          · cases ts with
            | nil =>
              have hid : X.last.kind = .identifier := hu.1
              rw [X.last_kind] at hid
              cases hid
            | cons u ts => exact hnone ⟨u, rfl, hu⟩
          · rw [current_there] at hu
            exact hnone ((hunit hnumber).1 hu)
        · refine .token halike ⟨hk, hnumber⟩ (fun hid hts hparen => ?_) (fun hdefines => ?_) htells
          · subst hts
            refine hname hparen ⟨[], t, rfl, hid, fun u hu => ?_⟩
            cases hu
          · intro n x b hx hsome hend
            exact hbody ⟨[], t, ts, rfl, hdefines, n, X.last, x, b, hx, hsome, hend⟩

/-! ### Echoes -/

/-- The second position stands in the longer text where the first one stands in the excerpt. -/
def Echo (X : Excerpt) (a a' : Ahead) : Prop :=
  ∃ ts ts', X.Tells ts ts' ∧ a = before ts X.last ∧ a' = before (ts' ++ X.behind) X.lastThere

/-- The second token stands in the longer text where the first one stands in the excerpt. -/
def Matches (X : Excerpt) (t t' : Token) : Prop :=
  t.Alike t' ∨ t.kind = .eof ∧ t' = X.next

theorem Tells.length_eq (h : X.Tells ts ts') : ts'.length = ts.length := by
  induction h with
  | nil => rfl
  | token _ _ _ _ _ ih => rw [List.length_cons, List.length_cons, ih]
  | number _ _ _ _ _ ih => rw [List.length_cons, List.length_cons, ih]
  | measure _ _ _ _ _ _ ih => simp only [List.length_cons, ih]

/-- Before the end of the excerpt stands a token of it. -/
theorem Tells.eq_nil (h : X.Tells ts ts') (hk : (before ts X.last).current.kind = .eof) :
    ts = [] ∧ ts' = [] := by
  cases h with
  | nil => exact ⟨rfl, rfl⟩
  | token _ hkind _ _ _ => exact absurd hk hkind.1
  | number _ hkind _ _ _ =>
    rw [Ahead.current_before, hkind] at hk
    cases hk
  | measure _ hkind _ _ _ _ =>
    rw [Ahead.current_before, hkind] at hk
    cases hk

namespace Echo

theorem current (h : X.Echo a a') : X.Matches a.current a'.current := by
  obtain ⟨ts, ts', hts, rfl, rfl⟩ := h
  cases hts with
  | nil => exact .inr ⟨X.last_kind, rfl⟩
  | token ht _ _ _ _ => exact .inl ht
  | number ht _ _ _ _ => exact .inl ht
  | measure ht _ _ _ _ _ => exact .inl ht

theorem alike (h : X.Echo a a') (hk : a.current.kind ≠ .eof) : a.current.Alike a'.current := by
  rcases h.current with ht | ⟨hend, -⟩
  · exact ht
  · exact absurd hend hk

/-- The end of the excerpt stands before what is behind it. -/
theorem eq_behind (h : X.Echo a a') (hk : a.current.kind = .eof) :
    a' = before X.behind X.lastThere := by
  obtain ⟨ts, ts', hts, rfl, rfl⟩ := h
  rw [(hts.eq_nil hk).2, List.nil_append]

/-- Past a token that is no number, the next positions echo one another. -/
theorem advance (h : X.Echo a a') (hk : a.current.kind ≠ .eof) (hn : a.current.kind ≠ .number) :
    ∃ b b', a.advance = .ok b ∧ a'.advance = .ok b' ∧ X.Echo b b' ∧
      (a.current.kind = .assign ∨ a.current.kind = .fatArrow → X.OpensBody b) := by
  obtain ⟨ts, ts', hts, rfl, rfl⟩ := h
  cases hts with
  | nil => exact absurd X.last_kind hk
  | @token t t' ts ts' ht hkind _ hbody htail =>
    exact ⟨_, _, Ahead.advance_before hkind.1, Ahead.advance_before (ht.kind ▸ hkind.1),
      ⟨ts, ts', htail, rfl, rfl⟩, hbody⟩
  | number _ hkind _ _ _ => exact absurd hkind hn
  | measure _ hkind _ _ _ _ => exact absurd hkind hn

/-- What follows a name: a parenthesis or the sign of an assignment in both texts or in none. -/
theorem following (h : X.Echo a a') (hk : a.current.kind = .identifier) :
    ∃ u u', a.following = .ok u ∧ a'.following = .ok u' ∧ (u'.kind = .lparen ↔ u.kind = .lparen) ∧
      assignment? u'.kind = assignment? u.kind := by
  obtain ⟨ts, ts', hts, rfl, rfl⟩ := h
  cases hts with
  | nil =>
    have hlast : X.last.kind = .identifier := hk
    rw [X.last_kind] at hlast
    cases hlast
  | @token t t' ts ts' _ _ hname _ htail =>
    refine ⟨_, _, Ahead.following_before t ts X.last, Ahead.following_before t' (ts' ++ X.behind) _, ?_⟩
    rcases Echo.current ⟨ts, ts', htail, rfl, rfl⟩ with hu | ⟨hend, hnext⟩
    · rw [hu.kind]
      exact ⟨Iff.rfl, rfl⟩
    · have hts : ts = [] := (htail.eq_nil hend).1
      rw [hend, hnext, X.assignment?_next]
      exact ⟨by simp [hname hk hts], rfl⟩
  | number _ hkind _ _ _ =>
    rw [Ahead.current_before, hkind] at hk
    cases hk
  | measure _ hkind _ _ _ _ =>
    rw [Ahead.current_before, hkind] at hk
    cases hk

theorem size_le (h : X.Echo a a') : a.size ≤ a'.size := by
  obtain ⟨ts, ts', hts, rfl, rfl⟩ := h
  rw [Ahead.size_before, Ahead.size_before, List.length_append, hts.length_eq]
  omega

end Echo

/-! ## Parsers -/

open Reckon.Parser

variable {α β γ δ : Type} {pre : Ahead → Prop} {reach : Prop} {view : α → γ} {look : β → δ}
  {p p' : Parser α} {f f' : α → Parser β}

/-- Every position. -/
def anywhere : Ahead → Prop :=
  fun _ => True

/-- Where the first parser starts at a position with `pre` and gives a result, the second one gives at a
position that echoes it a result of the same view, and they stop at positions that echo one another;
provided `reach` holds if the first one stops at the end of the excerpt. -/
structure Carries (X : Excerpt) (pre : Ahead → Prop) (reach : Prop) (view : α → γ) (p p' : Parser α) :
    Prop where
  moves : Moves p
  carry : ∀ {a a' : Ahead} {x : α} {b : Ahead}, X.Echo a a' → pre a → p a = .ok (x, b) →
    (b.current.kind = .eof → reach) → ∃ x' b', p' a' = .ok (x', b') ∧ view x' = view x ∧ X.Echo b b'

namespace Carries

theorem at_pre {pre' : Ahead → Prop} (h : X.Carries pre reach view p p') (hpre : ∀ a, pre' a → pre a) :
    X.Carries pre' reach view p p' :=
  ⟨h.moves, fun he ha => h.carry he (hpre _ ha)⟩

/-- At the end of the excerpt `reach` can be assumed, since a parser that starts there stops there. -/
theorem at_end (hm : Moves p) (hpre : ∀ a, pre a → a.current.kind = .eof)
    (h : reach → X.Carries pre reach view p p') : X.Carries pre reach view p p' := by
  refine ⟨hm, fun he ha hx hb => ?_⟩
  have hreach := hb ((hm _ _ _ hx).kind_eq_eof (hpre _ ha))
  exact (h hreach).carry he ha hx hb

/-- A parser that stops inside the excerpt has not started at its end. -/
theorem inside (h : X.Carries pre False view p p') (hpre : ∀ a, a.current.kind ≠ .eof → pre a) :
    X.Carries anywhere False view p p' :=
  ⟨h.moves, fun he _ hx hb =>
    h.carry he (hpre _ fun hk => hb ((h.moves _ _ _ hx).kind_eq_eof hk)) hx hb⟩

theorem pure {x x' : α} (hx : view x' = view x) :
    X.Carries pre reach view (Pure.pure x) (Pure.pure x') := by
  refine ⟨Moves.pure x, fun he _ hy _ => ?_⟩
  cases hy
  exact ⟨x', _, rfl, hx, he⟩

theorem bind (hp : X.Carries pre reach view p p')
    (hf : ∀ x x', view x' = view x → X.Carries anywhere reach look (f x) (f' x')) :
    X.Carries pre reach look (p >>= f) (p' >>= f') := by
  refine ⟨hp.moves.bind fun x => (hf x x rfl).moves, fun he ha hrun hc => ?_⟩
  obtain ⟨x, b, hx, hy⟩ := bind_eq_ok hrun
  have hb : b.current.kind = .eof → reach := fun hk =>
    hc (((hf x x rfl).moves _ _ _ hy).kind_eq_eof hk)
  obtain ⟨x', b', hx', hview, he'⟩ := hp.carry he ha hx hb
  obtain ⟨y', c', hy', hlook, he''⟩ := (hf x x' hview).carry he' trivial hy hc
  exact ⟨y', c', (bind_run_ok hx').trans hy', hlook, he''⟩

/-- What takes no token leaves the position as it is. -/
theorem bind_steady (hp : X.Carries pre reach view p p') (hsteady : ∀ {a x b}, p a = .ok (x, b) → b = a)
    (hf : ∀ x x', view x' = view x → X.Carries pre reach look (f x) (f' x')) :
    X.Carries pre reach look (p >>= f) (p' >>= f') := by
  refine ⟨hp.moves.bind fun x => (hf x x rfl).moves, fun he ha hrun hc => ?_⟩
  obtain ⟨x, b, hx, hy⟩ := bind_eq_ok hrun
  obtain rfl := hsteady hx
  have hb : b.current.kind = .eof → reach := fun hk =>
    hc (((hf x x rfl).moves _ _ _ hy).kind_eq_eof hk)
  obtain ⟨x', b', hx', hview, he'⟩ := hp.carry he ha hx hb
  obtain ⟨y', c', hy', hlook, he''⟩ := (hf x x' hview).carry he' ha hy hc
  exact ⟨y', c', (bind_run_ok hx').trans hy', hlook, he''⟩

theorem refuse (fault : SyntaxFault) (span : Option Span) :
    X.Carries pre reach view (refuse fault span) p' :=
  ⟨Moves.refuse fault span, fun _ _ hx => by cases hx⟩

theorem refuseHere (fault : Token → SyntaxFault) : X.Carries pre reach view (refuseHere fault) p' :=
  ⟨Moves.refuseHere fault, fun _ _ hx => by cases hx⟩

theorem tooNested : X.Carries pre reach view tooNested p' :=
  refuseHere _

/-! ### Looking at tokens -/

theorem current {f f' : Token → Parser β}
    (hf : ∀ t t', X.Matches t t' →
      X.Carries (fun a => pre a ∧ a.current = t) reach look (f t) (f' t')) :
    X.Carries pre reach look (current >>= f) (current >>= f') := by
  refine ⟨Moves.current.bind fun t => (hf t t (.inl (.refl t))).moves, fun he ha hy hc => ?_⟩
  rw [bind_run_ok (current_run _)] at hy ⊢
  exact (hf _ _ he.current).carry he ⟨ha, rfl⟩ hy hc

theorem at? {f f' : Bool → Parser β} (k : Token.Kind) (hk : k ≠ .eof)
    (hnext : reach → X.next.kind ≠ k)
    (hyes : X.Carries (fun a => pre a ∧ a.current.kind = k) reach look (f true) (f' true))
    (hno : X.Carries pre reach look (f false) (f' false)) :
    X.Carries pre reach look (at? k >>= f) (at? k >>= f') := by
  refine ⟨(Moves.at? k).bind fun b => b.casesOn hno.moves hyes.moves, fun he ha hy hc => ?_⟩
  rw [bind_run_ok (at?_run k _)] at hy ⊢
  rename_i a a' y c
  by_cases hkind : a.current.kind = k
  · have hkind' : a'.current.kind = k := (he.alike (hkind ▸ hk)).kind.trans hkind
    rw [hkind, beq_self_eq_true] at hy
    rw [hkind', beq_self_eq_true]
    exact hyes.carry he ⟨ha, hkind⟩ hy hc
  · rw [beq_eq_false_iff_ne.2 hkind] at hy
    have hkind' : a'.current.kind ≠ k := by
      rcases he.current with ht | ⟨hend, hthere⟩
      · exact ht.kind ▸ hkind
      · rw [hthere]
        exact hnext (hc ((hno.moves _ _ _ hy).kind_eq_eof hend))
    rw [beq_eq_false_iff_ne.2 hkind']
    exact hno.carry he ha hy hc

/-- What follows a name. -/
theorem following {f f' : Token → Parser β} (hpre : ∀ a, pre a → a.current.kind = .identifier)
    (hf : ∀ u u', (u'.kind = .lparen ↔ u.kind = .lparen) → assignment? u'.kind = assignment? u.kind →
      X.Carries pre reach look (f u) (f' u')) :
    X.Carries pre reach look (following >>= f) (following >>= f') := by
  refine ⟨Moves.following.bind fun u => (hf u u Iff.rfl rfl).moves, fun he ha hy hc => ?_⟩
  obtain ⟨u, u', hu, hu', hparen, hassign⟩ := he.following (hpre _ ha)
  have hrun : ∀ {a : Ahead} {u : Token}, a.following = .ok u → Parser.following a = .ok (u, a) := by
    intro a u hu
    rw [following_run, hu]
    rfl
  rw [bind_run_ok (hrun hu)] at hy
  rw [bind_run_ok (hrun hu')]
  exact (hf u u' hparen hassign).carry he ha hy hc

theorem require {n n' : Node} {f f' : Node → Parser β} (hn : n'.bare = n.bare)
    (hf : X.Carries pre reach look (f n) (f' n')) :
    X.Carries pre reach look (require n >>= f) (require n' >>= f') := by
  have hmoves : Moves (Parser.require n >>= f) := by
    intro a y c hrun
    obtain ⟨x, b, hx, hy⟩ := bind_eq_ok hrun
    obtain ⟨rfl, rfl, -⟩ := require_eq_ok hx
    exact hf.moves _ y c hy
  refine ⟨hmoves, fun he ha hrun hc => ?_⟩
  obtain ⟨x, b, hx, hy⟩ := bind_eq_ok hrun
  obtain ⟨rfl, rfl, hempty⟩ := require_eq_ok hx
  have hempty' : n'.isEmpty = false := (Node.isEmpty_eq_of_bare hn).trans hempty
  rw [bind_run_ok (require_run_ok hempty' _)]
  exact hf.carry he ha hy hc

/-! ### Taking tokens -/

theorem advance (hpre : ∀ a, pre a → a.current.kind ≠ .eof ∧ a.current.kind ≠ .number) :
    X.Carries pre reach Token.text advance advance := by
  refine ⟨Moves.advance, fun he ha hx _ => ?_⟩
  obtain ⟨rfl, hb⟩ := advance_eq_ok hx
  obtain ⟨hk, hn⟩ := hpre _ ha
  obtain ⟨c, c', hc, hc', he', -⟩ := he.advance hk hn
  cases hb.symm.trans hc
  exact ⟨_, c', advance_run_ok hc', (he.alike hk).text, he'⟩

/-- Behind the sign of a definition stands its body. -/
theorem bind_advance_body {f f' : Token → Parser β}
    (hpre : ∀ a, pre a → a.current.kind = .assign ∨ a.current.kind = .fatArrow)
    (hf : ∀ t t', X.Carries X.OpensBody reach look (f t) (f' t')) :
    X.Carries pre reach look (Parser.advance >>= f) (Parser.advance >>= f') := by
  refine ⟨Moves.advance.bind fun t => (hf t t).moves, fun he ha hrun hc => ?_⟩
  obtain ⟨t, b, hx, hy⟩ := bind_eq_ok hrun
  obtain ⟨rfl, hb⟩ := advance_eq_ok hx
  have hdefines := hpre _ ha
  have hkind : ∀ {k : Token.Kind}, k = .assign ∨ k = .fatArrow → k ≠ .eof ∧ k ≠ .number := by
    rintro k (rfl | rfl) <;> decide
  obtain ⟨d, d', hd, hd', he', hbody⟩ := he.advance (hkind hdefines).1 (hkind hdefines).2
  cases hb.symm.trans hd
  obtain ⟨y', c', hy', hlook, he''⟩ := (hf _ _).carry he' (hbody hdefines) hy hc
  exact ⟨y', c', (bind_run_ok (advance_run_ok hd')).trans hy', hlook, he''⟩

theorem expect (k : Token.Kind) (hk : k ≠ .eof ∧ k ≠ .number) :
    X.Carries pre reach Token.text (expect k) (expect k) := by
  refine ⟨Moves.expect k, fun {a a' t b} he _ hx hb => ?_⟩
  obtain ⟨hkind, hrun⟩ := expect_eq_ok hx
  have hadvance : X.Carries (fun c => c = a) reach Token.text Parser.advance Parser.advance :=
    advance fun c hc => by rw [hc, hkind]; exact hk
  have hkind' : a'.current.kind = k := (he.alike (hkind ▸ hk.1)).kind.trans hkind
  obtain ⟨t', b', hrun', htext, he'⟩ := hadvance.carry he rfl hrun hb
  exact ⟨t', b', (expect_of_kind hkind').trans hrun', htext, he'⟩

theorem accept (k : Token.Kind) (hk : k ≠ .eof ∧ k ≠ .number) (hnext : reach → X.next.kind ≠ k) :
    X.Carries pre reach id (accept k) (accept k) := by
  refine at? k hk.1 hnext ?_ (pure rfl)
  exact (advance fun a ha => by rw [ha.2]; exact hk).bind fun _ _ _ => pure rfl

/-- What is read up to a token that is not the end of the excerpt. -/
theorem bind_expect {k : Token.Kind} {g g' : α → Token → Parser β} (hp : X.Carries pre False view p p')
    (hk : k ≠ .eof ∧ k ≠ .number)
    (hg : ∀ x x', view x' = view x → ∀ t t', X.Carries anywhere reach look (g x t) (g' x' t')) :
    X.Carries pre reach look (p >>= fun x => Parser.expect k >>= fun t => g x t)
      (p' >>= fun x => Parser.expect k >>= fun t => g' x t) := by
  refine ⟨hp.moves.bind fun x => (Moves.expect k).bind fun t => (hg x x rfl t t).moves, ?_⟩
  intro a a' y d he ha hrun hd
  obtain ⟨x, b, hx, hrest⟩ := bind_eq_ok hrun
  obtain ⟨t, c, ht, -⟩ := bind_eq_ok hrest
  obtain ⟨hkind, -⟩ := expect_eq_ok ht
  have hb : b.current.kind = .eof → False := fun hend => hk.1 (hkind.symm.trans hend)
  obtain ⟨x', b', hx', hview, he'⟩ := hp.carry he ha hx hb
  have hafter : X.Carries anywhere reach look (Parser.expect k >>= fun t => g x t)
      (Parser.expect k >>= fun t => g' x' t) :=
    (expect k hk).bind fun t t' _ => hg x x' hview t t'
  obtain ⟨y', d', hy', hlook, he''⟩ := hafter.carry he' trivial hrest hd
  exact ⟨y', d', (bind_run_ok hx').trans hy', hlook, he''⟩

/-! ### Loops -/

theorem bounded {loop loop' : Nat → Parser α}
    (h : ∀ n n', n ≤ n' → X.Carries pre reach view (loop n) (loop' n')) :
    X.Carries pre reach view (bounded loop) (bounded loop') :=
  ⟨Moves.bounded fun n => (h n n (Nat.le_refl n)).moves, fun he ha hx hb =>
    (h _ _ he.size_le).carry he ha hx hb⟩

/-- A loop carries if one round does: the longer text allows as many rounds at least. -/
theorem rounds {loop loop' : Nat → Parser α} (hzero : loop 0 = Parser.tooNested)
    (hsucc : ∀ n n', X.Carries pre reach view (loop n) (loop' n') →
      X.Carries pre reach view (loop (n + 1)) (loop' (n' + 1))) {n n' : Nat} (hn : n ≤ n') :
    X.Carries pre reach view (loop n) (loop' n') := by
  induction n generalizing n' with
  | zero =>
    rw [hzero]
    exact tooNested
  | succ n ih =>
    obtain ⟨k, rfl⟩ := Nat.exists_eq_add_of_le' hn
    exact hsucc n (k + n) (ih (Nat.le_add_left n k))

end Carries

/-! ### Operands -/

/-- The parser may start: not at the end of the excerpt, unless the line ends there as well. -/
def Begun (X : Excerpt) (a : Ahead) : Prop :=
  a.current.kind = .eof → X.EndsLine

/-- A parser for operands, which finds none at the end of input. -/
structure Operand (X : Excerpt) (reach : Prop) (p p' : Parser Node) : Prop where
  carries : X.Carries X.Begun reach Node.bare p p'
  empty : ∀ {a : Ahead} {x : Node} {b : Ahead}, a.current.kind = .eof → p a = .ok (x, b) →
    x.isEmpty = true

namespace Operand

variable {p p' : Parser Node} {f f' : Node → Parser β}

/-- Where a missing operand is refused, the parser has not started at the end of the excerpt. -/
theorem bind_of_refused (hp : X.Operand reach p p')
    (hrefused : ∀ {x b r}, x.isEmpty = true → f x b ≠ .ok r)
    (hf : ∀ x x', x'.bare = x.bare → X.Carries anywhere reach look (f x) (f' x')) :
    X.Carries pre reach look (p >>= f) (p' >>= f') := by
  have hbind := hp.carries.bind hf
  refine ⟨hbind.moves, fun he _ hrun hc => hbind.carry he (fun hend => ?_) hrun hc⟩
  obtain ⟨x, b, hx, hy⟩ := bind_eq_ok hrun
  exact absurd hy (hrefused (hp.empty hend hx))

theorem bind (hp : X.Operand reach p p')
    (hf : ∀ x x', x'.bare = x.bare → X.Carries anywhere reach look (f x) (f' x')) :
    X.Carries pre reach look (p >>= fun x => require x >>= f) (p' >>= fun x => require x >>= f') := by
  refine hp.bind_of_refused (fun hempty hrun => ?_) fun x x' hx => .require hx (hf x x' hx)
  obtain ⟨_, _, hx, -⟩ := bind_eq_ok hrun
  rw [(require_eq_ok hx).2.2] at hempty
  cases hempty

/-- An operand that is read further: at the end of input nothing is added to it. -/
theorem andThen {g g' : Node → Parser Node} (hp : X.Operand reach p p')
    (hg : ∀ x x', x'.bare = x.bare → X.Carries anywhere reach Node.bare (g x) (g' x'))
    (hempty : ∀ {a x y b}, a.current.kind = .eof → g x a = .ok (y, b) → y = x) :
    X.Operand reach (p >>= g) (p' >>= g') := by
  refine ⟨hp.carries.bind hg, fun hend hrun => ?_⟩
  obtain ⟨x, b, hx, hy⟩ := bind_eq_ok hrun
  rw [hempty ((hp.carries.moves _ _ _ hx).kind_eq_eof hend) hy]
  exact hp.empty hend hx

end Operand

end Excerpt

end Reckon
