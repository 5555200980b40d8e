import Reckon.Proofs.Lexing.Lossless
import Reckon.Proofs.Parsing.Taken
import Reckon.Proofs.Parsing.Traced

/-!
# Parsing ends

The parser is bounded twice: the nesting by the first argument of `expr`, `factor` and `statements`, and every
loop by a number of rounds.  If a bound is used up, that is an error of its own (`RunsOut`).  Here it is shown
that this error never arises, and that the bounds do not show otherwise either.

Where a bound is not used up, a larger one makes no difference (`Parser.Outlasts`); this is so of every rule, since
it is so of the pieces (`Parser.Uniform`).  And a bound is not used up that exceeds the tokens left.  Wherever the
parser goes into a rule or into another round, a token has been taken since the last time, or the rule is nested in
an outer one only once at this place: statements hold expressions, and expressions hold operands.  So twice the
number of tokens left, and one to three more, is a bound that is not used up (`Parser.Ensures.grammar`).  For rows
of matrices, with nothing between their elements, the token taken is one of the element.
-/

namespace Reckon

/-- The outcome is the error that a bound on nesting, or on the rounds of a loop, is used up. -/
def RunsOut {α : Type} (r : Except Error α) : Prop :=
  ∃ e, r = .error e ∧ e.cause = .grammar .nesting

/-! ## Positions in texts -/

namespace Ahead

variable {a b : Ahead}

/-- The tokens end as those of a text do: with the end of input, or with an error that has nothing to do with
nesting. -/
structure Lexed (a : Ahead) : Prop where
  closed : a.Closed
  ending : ¬ RunsOut a.ending

theorem Lexed.reaches (ha : a.Lexed) (h : a.Reaches b) : b.Lexed :=
  ⟨h.closed ha.closed, h.ending_eq ▸ ha.ending⟩

theorem not_runsOut_ending (file : String) (source : List Char) :
    ¬ RunsOut (TokenStream.ofChars file source).ending := by
  rintro ⟨e, hending, hcause⟩
  obtain ⟨p, -, hcloses⟩ := TokenStream.ofChars_covers file source
  rw [hending] at hcloses
  obtain ⟨c, hstray⟩ := hcloses
  rw [hstray.cause] at hcause
  cases hcause

theorem Within.lexed {file source : String} (h : Within file source a) : a.Lexed := by
  obtain ⟨first, hstart, hreach⟩ := h
  refine Lexed.reaches ⟨closed_start hstart, ?_⟩ hreach
  rcases start_cases (P := fun _ => True) (s := TokenStream.ofChars file source.toList)
    (fun _ _ => trivial) (fun _ _ => trivial) with ⟨first', hfirst, -, hending⟩ | ⟨e, he, -⟩
  · rw [hstart] at hfirst
    cases hfirst
    rw [hending]
    exact not_runsOut_ending file source.toList
  · rw [hstart] at he
    cases he

end Ahead

namespace Parser

open Ahead

variable {α : Type} {a b : Ahead} {k n : Nat}

/-! ## Runs with two bounds -/

/-- From this position the two runs are the same, and a bound is not used up. -/
def Matches (p q : Parser α) (a : Ahead) : Prop :=
  p a = q a ∧ ¬ RunsOut (p a)

/-- Wherever the first parser does not use up its bounds, the second one does the same. -/
def Outlasts (p q : Parser α) : Prop :=
  ∀ a, RunsOut (p a) ∨ p a = q a

namespace Outlasts

theorem refl (p : Parser α) : Outlasts p p :=
  fun _ => .inr rfl

theorem bind {β : Type} {p q : Parser α} {f g : α → Parser β} (hp : Outlasts p q)
    (hf : ∀ x, Outlasts (f x) (g x)) : Outlasts (p >>= f) (q >>= g) := by
  intro a
  rw [bind_run, bind_run]
  rcases hp a with ⟨e, he, hcause⟩ | heq
  · rw [he]
    exact .inl ⟨e, rfl, hcause⟩
  · rw [← heq]
    cases p a with
    | error e => exact .inr rfl
    | ok r => exact hf r.1 r.2

/-- Larger bounds on the pieces make no more difference than that. -/
theorem uniform : Uniform fun _ p q => Outlasts p q where
  pure _ := refl _
  bind := bind
  current _ hf := (refl _).bind hf
  advance _ hf := (refl _).bind hf
  following _ hf := (refl _).bind hf
  refuse _ _ := refl _
  refuseHere _ := refl _
  tooNested _ _ := .inl ⟨_, rfl, rfl⟩
  operator spacing bound hp hf := (refl _).bind fun t => by
    cases operator? spacing bound t with
    | none => exact hp
    | some op => exact hf op
  sized h a := h a.size a

end Outlasts

/-- A parser that is only refused for other reasons does not use up its bounds. -/
theorem Ensures.not_runsOut {p : Parser α} {Q : α → Ahead → Prop} (h : Ensures a True a Q p) (ha : a.Lexed) :
    ¬ RunsOut (p a) := by
  rintro ⟨e, he, hcause⟩
  rcases (h (.refl a) fun _ => ha.closed).2 e he with hend | ⟨fault, hfault, -, hbounds⟩
  · exact ha.ending ⟨e, hend, hcause⟩
  · rw [hfault] at hcause
    exact hbounds (Cause.grammar.inj hcause) trivial

theorem room_of_le (ha : a.Lexed) {w : Nat} (h : w * a.left + k ≤ n) : Room True a w k n :=
  fun _ => ⟨ha.closed, h⟩

/-! ## Bounds that are large enough -/

/-- From `k` on the bound makes no difference at this position, and it is not used up. -/
def Saturates (p : Nat → Parser α) (k : Nat) (a : Ahead) : Prop :=
  ∀ n, k ≤ n → Matches (p n) (p k) a

/-- Every loop ends at this position: with more rounds than tokens left, it does what it would do with any
number of rounds.  What is repeated are expressions and operands with this bound on their nesting. -/
structure LoopsEnd (n : Nat) (a : Ahead) : Prop where
  operators : ∀ spacing bound left,
    Saturates (fun rounds => climb (factor n) spacing rounds bound left) (a.left + 1) a
  arguments : Saturates (arguments (expr n .ignored)) (a.left + 1) a
  row : Saturates (matrixRow (expr n .matters)) (a.left + 1) a
  rows : Saturates (matrixRows (expr n .matters)) (a.left + 1) a
  assignments : Saturates (assignments (expr n .ignored)) (a.left + 1) a
  lines : Saturates (moreStatements (expr n .ignored)) (a.left + 1) a
  newlines : Saturates skipNewlines (a.left + 1) a

theorem Saturates.of_outlasts {p : Nat → Parser α} (h : ∀ n, k ≤ n → Outlasts (p k) (p n))
    (hk : ¬ RunsOut (p k a)) : Saturates p k a := by
  intro n hn
  rcases h n hn a with hout | heq
  · exact absurd hout hk
  · exact ⟨heq.symm, heq ▸ hk⟩

/-- Operands need a bound of twice the tokens left and one more. -/
theorem saturates_factor (ha : a.Lexed) : Saturates factor (2 * a.left + 1) a := by
  have hensures : Ensures a True a (MayRead a) (factor (2 * a.left + 1)) :=
    (Ensures.grammar _ a).1 (room_of_le ha (Nat.le_refl _))
  exact .of_outlasts (fun n hn => (Outlasts.uniform.grammar hn).2.1) (hensures.not_runsOut ha)

/-- Expressions need one more than operands. -/
theorem saturates_expr (ha : a.Lexed) (s : Spacing) : Saturates (fun n => expr n s) (2 * a.left + 2) a := by
  have hensures : Ensures a True a (MayRead a) (expr (2 * a.left + 2) s) :=
    (Ensures.grammar _ a).2.1 s (room_of_le ha (Nat.le_refl _))
  exact .of_outlasts (fun n hn => (Outlasts.uniform.grammar hn).1 s) (hensures.not_runsOut ha)

/-- Statements need one more than expressions. -/
theorem saturates_statements (ha : a.Lexed) : Saturates statements (2 * a.left + 3) a := by
  have hensures : Ensures a True a (Reading (.nodes true) a) (statements (2 * a.left + 3)) :=
    (Ensures.grammar _ a).2.2 (room_of_le ha (Nat.le_refl _))
  exact .of_outlasts (fun n hn => (Outlasts.uniform.grammar hn).2.2) (hensures.not_runsOut ha)

theorem loopsEnd (ha : a.Lexed) (hn : 2 * a.left + 2 ≤ n) : LoopsEnd n a := by
  have hnesting : Room True a 2 2 n := room_of_le ha hn
  have hrounds : Room True a 1 1 (a.left + 1) := room_of_le ha (by omega)
  have hf : ReadsFrom a True a (factor n) :=
    fun b hb => (Ensures.grammar n b).1 (hnesting.reach hb).weaken
  have he : ∀ s, ReadsFrom a True a (expr n s) :=
    fun s b hb => (Ensures.grammar n b).2.1 s (hnesting.reach hb)
  have hpast : ReadsPast a True a (expr n .ignored) := fun b hb => he _ b hb.reaches
  have hany : Ensures.HandedOn fun _ _ => True := fun _ _ _ _ _ _ _ _ => trivial
  have hsame : ∀ p : Parser Node, Outlasts p p := .refl
  exact {
    operators := fun spacing bound left => .of_outlasts
      (fun m hm => Outlasts.uniform.climb (hsame _) spacing hm bound left)
      ((Ensures.climb_of_handedOn hany hf hrounds trivial).not_runsOut ha)
    arguments := .of_outlasts (fun m hm => Outlasts.uniform.arguments (hsame _) hm)
      ((Ensures.arguments (he _) hrounds).not_runsOut ha)
    row := .of_outlasts (fun m hm => Outlasts.uniform.matrixRow (hsame _) hm)
      ((Ensures.matrixRow (he _) hrounds).not_runsOut ha)
    rows := .of_outlasts (fun m hm => Outlasts.uniform.matrixRows (hsame _) hm)
      ((Ensures.matrixRows (he _) hrounds).not_runsOut ha)
    assignments := .of_outlasts (fun m hm => Outlasts.uniform.assignments (hsame _) hm)
      ((Ensures.assignments hpast hrounds).not_runsOut ha)
    lines := .of_outlasts (fun m hm => Outlasts.uniform.moreStatements (hsame _) hm)
      ((Ensures.moreStatements (he _) hrounds).not_runsOut ha)
    newlines := .of_outlasts (fun m hm => Outlasts.uniform.skipNewlines hm)
      ((Ensures.skipNewlines hrounds).not_runsOut ha) }

/-- What an expression may do: fail, find nothing and take nothing, or give a node and take tokens. -/
theorem expr_cases {s : Spacing} (ha : a.Closed) :
    (∃ e, expr n s a = .error e) ∨ (∃ x, x.isEmpty = true ∧ expr n s a = .ok (x, a)) ∨
      ∃ x b ts, x.isEmpty = false ∧ expr n s a = .ok (x, b) ∧ a.Takes ts b ∧ ts ≠ [] := by
  cases hrun : expr n s a with
  | error e => exact .inl ⟨e, rfl⟩
  | ok r =>
    obtain ⟨x, b⟩ := r
    rcases reads_of_expr hrun with ⟨hempty, rfl⟩ | hread
    · exact .inr (.inl ⟨x, hempty, rfl⟩)
    · obtain ⟨ts, hts⟩ := hread.reaches.exists_takes
      refine .inr (.inr ⟨x, b, ts, hread.isEmpty_eq_false x List.mem_cons_self, rfl, hts, ?_⟩)
      rintro rfl
      cases hts
      exact absurd (hread.past_singleton.left_lt ha) (Nat.lt_irrefl _)

/-- Behind an operator fewer tokens are left, and its right operand is read at a tighter level. -/
theorem operator?_decreases {s : Spacing} {bound : Nat} {op : BinaryOp} (ha : a.Closed)
    (h : operator? s bound a.current = some op) (hb : a.advance = .ok b) :
    b.left < a.left ∧ op.level < bound := by
  refine ⟨ha.left_lt (kind_ne_eof_of_operator? h) hb, ?_⟩
  unfold operator? at h
  split at h
  · split at h
    · rename_i hlevel
      cases h
      exact hlevel.1
    · cases h
  · cases h

/-- Reading a whole program does not use up a bound. -/
theorem not_runsOut_parse (file source : String) : ¬ RunsOut (Node.parse file source) := by
  rintro ⟨e, he, hcause⟩
  unfold Node.parse Node.ofTokens at he
  rcases start_cases (P := fun _ => True) (s := TokenStream.ofChars file source.toList)
    (fun _ _ => trivial) (fun _ _ => trivial) with ⟨a, hstart, -⟩ | ⟨e', hstart, hending⟩
  · have ha : a.Lexed := Within.lexed ⟨a, hstart, .refl a⟩
    rw [hstart] at he
    change (program a >>= fun r => pure r.1) = .error e at he
    cases hrun : program a with
    | error e' =>
      rw [hrun] at he
      cases he
      have hprogram : ¬ RunsOut (program a) :=
        Ensures.not_runsOut (Ensures.program fun _ => ha.closed) ha
      exact hprogram ⟨e, hrun, hcause⟩
    | ok r =>
      rw [hrun] at he
      cases he
  · rw [hstart] at he
    cases he
    exact not_runsOut_ending file source.toList ⟨e, hending, hcause⟩

/-- **Parsing ends, because it takes tokens.**  No program makes the parser use up its bounds.  At every position
of every text, with blanks that matter and with blanks that do not, an expression fails, or is missing and takes
nothing, or is there and takes tokens.  So, at that position, bounds on the nesting make no difference once they
exceed twice the tokens left, by one for operands, by two for expressions, by three for statements; and no loop
has more rounds than there are tokens left, and one to stop.  An operator leaves fewer tokens and a tighter level
to its right operand. -/
theorem parse_ends (file source : String) :
    ¬ RunsOut (Node.parse file source) ∧ ∀ a, Within file source a →
      (∀ n spacing, (∃ e, expr n spacing a = .error e) ∨
        (∃ x, x.isEmpty = true ∧ expr n spacing a = .ok (x, a)) ∨
        ∃ x b ts, x.isEmpty = false ∧ expr n spacing a = .ok (x, b) ∧ a.Takes ts b ∧ ts ≠ []) ∧
      Saturates factor (2 * a.left + 1) a ∧
      (∀ spacing, Saturates (fun n => expr n spacing) (2 * a.left + 2) a) ∧
      Saturates statements (2 * a.left + 3) a ∧
      (∀ n, 2 * a.left + 2 ≤ n → LoopsEnd n a) ∧
      ∀ spacing bound op b, operator? spacing bound a.current = some op → a.advance = .ok b →
        b.left < a.left ∧ op.level < bound := by
  refine ⟨not_runsOut_parse file source, fun a ha => ?_⟩
  have hlexed := ha.lexed
  exact ⟨fun n spacing => expr_cases hlexed.closed, saturates_factor hlexed, saturates_expr hlexed,
    saturates_statements hlexed, fun n hn => loopsEnd hlexed hn,
    fun spacing bound op b hop hb => operator?_decreases hlexed.closed hop hb⟩

/-- A row without its closing bracket: four tokens, so a bound of ten is enough for its loops. -/
theorem parse_ends_open_row :
    ∃ a, Within "input" "[1 -2" a ∧ a.left = 4 ∧ LoopsEnd 10 a ∧
      (∃ e, expr 10 .ignored a = .error e ∧ e.cause ≠ .grammar .nesting) ∧
      ¬ RunsOut (Node.parse "input" "[1 -2") := by
  have h : Within "input" "[1 -2" _ := ⟨_, rfl, .refl _⟩
  obtain ⟨hparse, hends⟩ := parse_ends "input" "[1 -2"
  obtain ⟨-, -, hexpr, -, hloops, -⟩ := hends _ h
  refine ⟨_, h, rfl, hloops 10 (by decide), ⟨_, rfl, ?_⟩, hparse⟩
  exact fun hcause => (hexpr .ignored 10 (by decide)).2 ⟨_, rfl, hcause⟩

end Parser

end Reckon
