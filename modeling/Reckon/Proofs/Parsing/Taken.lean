import Reckon.Proofs.Parsing.Grammar

/-!
# The tokens that a parser takes

Between the position where a parser starts and the one where it stops stand the tokens that it takes
(`Ahead.Takes`).  What is to be said of a rule is that they are of its category: for a parser that always
takes something (`Parser.TakesAs`), and for one that may find no operand and then takes nothing
(`Parser.ReadsAs`).  All this is about tokens among which no comma stands right before a closing
parenthesis (`Ahead.Tidy`).  A run is taken apart step by step: each step leaves a position of this kind.
-/

namespace Reckon

open Grammar

/-! ## The tokens between two positions -/

namespace Ahead

variable {a b c : Ahead} {ts us : List Token} {t last : Token}

/-- From the one position to the other exactly these tokens are taken. -/
inductive Takes : Ahead → List Token → Ahead → Prop where
  | refl (a : Ahead) : Takes a [] a
  | cons {a b c : Ahead} {ts : List Token} (kind : a.current.kind ≠ .eof)
      (advance : a.advance = .ok b) (rest : Takes b ts c) : Takes a (a.current :: ts) c

theorem Takes.trans (h : a.Takes ts b) (h' : b.Takes us c) : a.Takes (ts ++ us) c := by
  induction h with
  | refl => exact h'
  | cons hk hadv _ ih => exact .cons hk hadv (ih h')

theorem Takes.reaches (h : a.Takes ts b) : a.Reaches b := by
  induction h with
  | refl => exact .refl _
  | cons _ hadv _ ih => exact ih.head hadv

theorem Reaches.exists_takes (h : a.Reaches b) : ∃ ts, a.Takes ts b := by
  induction h with
  | refl => exact ⟨[], .refl a⟩
  | @tail b c _ hadv ih =>
    obtain ⟨ts, hts⟩ := ih
    by_cases hk : b.current.kind = .eof
    · rw [advance, if_pos hk] at hadv
      cases hadv
      exact ⟨ts, hts⟩
    · exact ⟨ts ++ [b.current], hts.trans (.cons hk hadv (.refl c))⟩

/-- What is taken from given tokens is the first part of them. -/
theorem Takes.before (h : (before ts last).Takes us b) (hkinds : ∀ t ∈ ts, t.kind ≠ .eof)
    (hlast : last.kind = .eof) : ∃ vs, ts = us ++ vs ∧ b = Ahead.before vs last := by
  generalize ha : Ahead.before ts last = a at h
  induction h generalizing ts with
  | refl => exact ⟨ts, rfl, ha.symm⟩
  | cons hk hadv _ ih =>
    subst ha
    cases ts with
    | nil => exact absurd hlast hk
    | cons t ts =>
      obtain ⟨ht, hts⟩ := List.forall_mem_cons.1 hkinds
      rw [advance_before ht] at hadv
      cases hadv
      obtain ⟨vs, rfl, rfl⟩ := ih hts rfl
      exact ⟨vs, rfl, rfl⟩

/-- What is reached before given tokens is one of them, or the end of input. -/
theorem Reaches.current_mem (h : (Ahead.before ts last).Reaches b) (hkinds : ∀ t ∈ ts, t.kind ≠ .eof)
    (hlast : last.kind = .eof) : b.current ∈ ts ∨ b.current = last := by
  obtain ⟨us, hus⟩ := h.exists_takes
  obtain ⟨vs, rfl, rfl⟩ := hus.before hkinds hlast
  cases vs with
  | nil => exact .inr rfl
  | cons v vs => exact .inl (List.mem_append_right us List.mem_cons_self)

/-- The tokens ahead end with the end of input, and no comma among them stands right before a closing
parenthesis. -/
structure Tidy (a : Ahead) : Prop where
  closed : a.Closed
  comma : ∀ b c, a.Reaches b → b.current.kind = .comma → b.advance = .ok c →
    c.current.kind ≠ .rparen

theorem Tidy.reaches (h : a.Tidy) (hr : a.Reaches b) : b.Tidy :=
  ⟨hr.closed h.closed, fun c d hc => h.comma c d (hr.trans hc)⟩

theorem Tidy.takes (h : a.Tidy) (ht : a.Takes ts b) : b.Tidy :=
  h.reaches ht.reaches

theorem tidy_before (hkinds : ∀ t ∈ ts, t.kind ≠ .eof) (hlast : last.kind = .eof)
    (h : ts.IsChain NoTrailingComma) : (before ts last).Tidy := by
  refine ⟨closed_before hlast ts, fun b c hb hcomma hadv => ?_⟩
  obtain ⟨us, hus⟩ := hb.exists_takes
  obtain ⟨vs, rfl, rfl⟩ := hus.before hkinds hlast
  cases vs with
  | nil =>
    have hk : last.kind = .comma := hcomma
    rw [hlast] at hk
    cases hk
  | cons t vs =>
    have ht : t.kind = .comma := hcomma
    rw [advance_before (by rw [ht]; decide)] at hadv
    cases hadv
    cases vs with
    | nil =>
      show last.kind ≠ .rparen
      rw [hlast]
      decide
    | cons u vs =>
      have hpair := (List.isChain_append.1 h).2.1
      exact fun hu => (List.isChain_cons_cons.1 hpair).1 ⟨ht, hu⟩

end Ahead

namespace Parser

open Ahead

variable {α β : Type} {φ : Category} {p : Parser Node} {a b : Ahead} {t : Token} {x : Node}
  {r : β × Ahead}

/-- The parser takes tokens of this category. -/
def TakesAs (φ : Category) (p : Parser α) : Prop :=
  ∀ a, a.Tidy → ∀ x b, p a = .ok (x, b) → ∃ ts, a.Takes ts b ∧ Derives φ ts

/-! ## Single steps -/

/-- Taking the current token, and then the rest. -/
theorem bind_advance {f : Token → Parser β} (ha : a.Tidy) (hk : a.current.kind ≠ .eof)
    (h : (advance >>= f) a = .ok r) :
    ∃ b, a.Takes [a.current] b ∧ b.Tidy ∧ a.advance = .ok b ∧ f a.current b = .ok r := by
  obtain ⟨t, b, hadv, hrest⟩ := bind_eq_ok h
  obtain ⟨rfl, hb⟩ := advance_eq_ok hadv
  have htakes : a.Takes [a.current] b := .cons hk hb (.refl b)
  exact ⟨b, htakes, ha.takes htakes, hb, hrest⟩

/-- Taking a token of some kind, and then the rest. -/
theorem bind_expect {k : Token.Kind} {f : Token → Parser β} (ha : a.Tidy) (hk : k ≠ .eof)
    (h : (expect k >>= f) a = .ok r) :
    ∃ t b, t.kind = k ∧ a.Takes [t] b ∧ b.Tidy ∧ f t b = .ok r := by
  obtain ⟨t, b, hexpect, hrest⟩ := bind_eq_ok h
  obtain ⟨hcurrent, hadv⟩ := expect_eq_ok hexpect
  obtain ⟨rfl, hb⟩ := advance_eq_ok hadv
  have htakes : a.Takes [a.current] b := .cons (hcurrent ▸ hk) hb (.refl b)
  exact ⟨_, b, hcurrent, htakes, ha.takes htakes, hrest⟩

/-- Taking a token of some kind if there is one, and then the rest. -/
theorem bind_accept {k : Token.Kind} {f : Bool → Parser β} (ha : a.Tidy) (hk : k ≠ .eof)
    (h : (accept k >>= f) a = .ok r) :
    (a.current.kind = k ∧ ∃ b, a.Takes [a.current] b ∧ b.Tidy ∧ a.advance = .ok b ∧
      f true b = .ok r) ∨ (a.current.kind ≠ k ∧ f false a = .ok r) := by
  by_cases hc : a.current.kind = k
  · rw [accept, bind_assoc, bind_run_ok (at?_run k a), if_pos (beq_iff_eq.2 hc), bind_assoc] at h
    exact .inl ⟨hc, bind_advance ha (hc ▸ hk) h⟩
  · rw [bind_run_ok (accept_run_no hc)] at h
    exact .inr ⟨hc, h⟩

/-- Looking behind the current token takes nothing. -/
theorem eq_of_following (h : following a = .ok (t, b)) : b = a := by
  rw [following_run] at h
  cases hf : a.following with
  | error e =>
    rw [hf] at h
    cases h
  | ok u =>
    rw [hf] at h
    cases h
    rfl

/-! ## What is taken -/

/-- From this position the parser gives nothing and takes nothing, or it takes tokens of this
category. -/
def ReadsAt (φ : Category) (a : Ahead) (p : Parser Node) : Prop :=
  ∀ x b, p a = .ok (x, b) →
    (x.isEmpty = true ∧ b = a) ∨ (x.isEmpty = false ∧ ∃ ts, a.Takes ts b ∧ Derives φ ts)

/-- The parser does so from every position. -/
def ReadsAs (φ : Category) (p : Parser Node) : Prop :=
  ∀ a, a.Tidy → ReadsAt φ a p

theorem ReadsAt.current {f : Token → Parser Node} (h : ReadsAt φ a (f a.current)) :
    ReadsAt φ a (current >>= f) := by
  intro x b hrun
  rw [bind_run_ok (current_run a)] at hrun
  exact h x b hrun

/-- An operand that is there. -/
theorem ReadsAs.of_require (hp : ReadsAs φ p) (ha : a.Tidy) (h : p a = .ok (x, b))
    {f : Node → Parser β} (hrest : (require x >>= f) b = .ok r) :
    ∃ ts, a.Takes ts b ∧ Derives φ ts ∧ b.Tidy ∧ x.isEmpty = false ∧ f x b = .ok r := by
  obtain ⟨y, c, hrequire, hgoesOn⟩ := bind_eq_ok hrest
  obtain ⟨rfl, rfl, hsome⟩ := require_eq_ok hrequire
  rcases hp a ha _ _ h with ⟨hnone, -⟩ | ⟨-, ts, hts, hderives⟩
  · rw [hsome] at hnone
    cases hnone
  · exact ⟨ts, hts, hderives, ha.takes hts, hsome, hgoesOn⟩

/-- Reading an operand that has to be there, and then the rest. -/
theorem ReadsAs.bind_require (hp : ReadsAs φ p) (ha : a.Tidy) {f : Node → Parser β}
    (h : (p >>= fun x => require x >>= f) a = .ok r) :
    ∃ x b ts, a.Takes ts b ∧ Derives φ ts ∧ b.Tidy ∧ x.isEmpty = false ∧ f x b = .ok r := by
  obtain ⟨x, b, hx, hrest⟩ := bind_eq_ok h
  exact ⟨x, b, hp.of_require ha hx hrest⟩

end Parser

end Reckon
