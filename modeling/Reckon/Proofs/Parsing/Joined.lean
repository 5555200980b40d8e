import Reckon.Proofs.Lexing.Joined
import Reckon.Proofs.Parsing.Carried

/-!
# Programs one after the other

A program is a row of lines.  `Lines` says which lines are read from a position to the end of input; it
follows the loop of the parser without its bound, which is never met (`statementsWith_of_lines`).

Where the tokens of a text stand in a longer one, the same lines are read there, and reading goes on
with what stands behind them (`Lines.carry`).  So the lines of two texts with a newline between them
are those of the first and then those of the second (`Node.parse_join`).
-/

namespace Reckon

/-- The token ends a line. -/
def Token.isNewline (t : Token) : Bool :=
  t.kind == .newline

theorem Token.isNewline_iff {t : Token} : t.isNewline = true ↔ t.kind = .newline :=
  beq_iff_eq

theorem Excerpt.Tells.dropWhile_isNewline {X : Excerpt} {ts ts' : List Token} (h : X.Tells ts ts') :
    X.Tells (ts.dropWhile Token.isNewline) (ts'.dropWhile Token.isNewline) := by
  have hnumber : ∀ {t : Token}, t.kind = .number → ¬ t.isNewline = true := by
    intro t ht hn
    rw [Token.isNewline_iff, ht] at hn
    cases hn
  induction h with
  | nil => exact .nil
  | @token t t' ts ts' ht hkind hname hbody htail ih =>
    have hsame : t'.isNewline = t.isNewline := by rw [Token.isNewline, ht.kind, Token.isNewline]
    rw [List.dropWhile_cons, List.dropWhile_cons, hsame]
    split
    · exact ih
    · exact .token ht hkind hname hbody htail
  | number ht hkind halone halone' htail _ =>
    rw [List.dropWhile_cons_of_neg (hnumber hkind),
      List.dropWhile_cons_of_neg (hnumber (ht.kind.trans hkind))]
    exact .number ht hkind halone halone' htail
  | measure ht hkind hunit hunit' htext htail _ =>
    rw [List.dropWhile_cons_of_neg (hnumber hkind),
      List.dropWhile_cons_of_neg (hnumber (ht.kind.trans hkind))]
    exact .measure ht hkind hunit hunit' htext htail

/-- A newline or nothing stands behind the excerpt. -/
theorem Excerpt.EndsLine.of_newline {X : Excerpt} (h : X.behind ≠ [] → X.next.kind = .newline) :
    X.EndsLine := by
  by_cases hb : X.behind = []
  · refine .inr ?_
    rw [Excerpt.next, hb]
    exact X.lastThere_kind
  · exact .inl (h hb)

/-- Tokens some lines further down are told again. -/
theorem Token.Retold.of_moved {next : Token} (hnext : next.kind ≠ .identifier) {d : Nat}
    {ts ts' : List Token} (h : List.Forall₂ (Token.Moved d) ts ts') : Token.Retold next ts ts' := by
  induction h with
  | nil => exact .nil
  | @cons t t' ts ts' ht hts ih =>
    have halike : t.Alike t' := by
      refine .of_joins ht.kind ht.text fun _ => ?_
      rw [Token.joinsNeighbours, ht.blankBefore, ht.blankAfter, Token.joinsNeighbours]
    refine .cons halike (fun _ => ?_) ih
    cases hts with
    | nil =>
      refine ⟨fun hunit => absurd hunit.1 hnext, fun hunit => ?_⟩
      obtain ⟨u, hu, -⟩ := hunit
      cases hu
    | @cons u u' _ _ hu _ =>
      have htouches : t'.Touches u' ↔ t.Touches u := by
        unfold Token.Touches
        rw [hu.startLine, hu.startCol, ht.endLine, ht.endCol, Int.add_left_inj]
      simp only [List.headD_cons, List.head?_cons, Option.mem_some_iff, exists_eq_left', Token.HasUnit,
        hu.kind, hu.text, htouches]

namespace Parser

open Ahead (before)

variable {line line' : Parser (List Node)} {e : Parser Node} {a b c : Ahead} {xs ys : List Node}
  {t last : Token} {ts : List Token}

/-! ## Newlines between lines -/

theorem skipNewlines_before (hl : last.kind = .eof) {n : Nat} (hn : ts.length < n) :
    skipNewlines n (before ts last) = .ok ((), before (ts.dropWhile Token.isNewline) last) := by
  induction ts generalizing n with
  | nil =>
    obtain ⟨n, rfl⟩ : ∃ k, n = k + 1 := ⟨n - 1, by omega⟩
    have hk : (before [] last).current.kind ≠ .newline := by
      show last.kind ≠ .newline
      rw [hl]
      decide
    exact skipNewlines_run_no hk n
  | cons t ts ih =>
    obtain ⟨n, rfl⟩ : ∃ k, n = k + 1 := ⟨n - 1, by omega⟩
    rw [List.length_cons] at hn
    by_cases hk : t.kind = .newline
    · have hadvance : (before (t :: ts) last).advance = .ok (before ts last) :=
        Ahead.advance_before (by rw [hk]; decide)
      rw [skipNewlines_run_newline hk hadvance, ih (by omega),
        List.dropWhile_cons_of_pos (Token.isNewline_iff.2 hk)]
    · rw [skipNewlines_run_no hk, List.dropWhile_cons_of_neg (mt Token.isNewline_iff.1 hk)]

/-- All newlines are passed. -/
theorem bounded_skipNewlines_before (hl : last.kind = .eof) (ts : List Token) :
    bounded skipNewlines (before ts last) = .ok ((), before (ts.dropWhile Token.isNewline) last) :=
  skipNewlines_before hl (Ahead.length_lt_size ts last)

/-! ## Lines up to the end of input -/

/-- The lines that are read from the position to the end of input, as `line` reads them. -/
inductive Lines (line : Parser (List Node)) : Ahead → List Node → Prop where
  | last {a b c : Ahead} {xs : List Node} (hskip : bounded skipNewlines a = .ok ((), b))
      (hline : line b = .ok (xs, c)) (hend : c.current.kind = .eof) : Lines line a xs
  | more {a b c : Ahead} {xs ys : List Node} (hskip : bounded skipNewlines a = .ok ((), b))
      (hline : line b = .ok (xs, c)) (hnext : c.current.kind = .newline) (hmore : Lines line c ys) :
      Lines line a (xs ++ ys)

/-- Newlines before the lines do not matter. -/
theorem Lines.of_skip (h : Lines line b xs)
    (hskip : bounded skipNewlines a = bounded skipNewlines b) : Lines line a xs := by
  cases h with
  | last hb hline hend => exact .last (hskip.trans hb) hline hend
  | more hb hline hnext hmore => exact .more (hskip.trans hb) hline hnext hmore

theorem lines_of_moreStatements {n : Nat} (h : moreStatements e n a = .ok (xs, b))
    (hb : b.current.kind = .eof) :
    (a.current.kind = .eof ∧ xs = []) ∨ (a.current.kind = .newline ∧ Lines (statement e) a xs) := by
  induction n generalizing a xs with
  | zero => cases h
  | succ n ih =>
    by_cases hk : a.current.kind = .newline
    · rw [moreStatements_run_newline e hk] at h
      obtain ⟨⟨⟩, a₀, hskip, h⟩ := bind_eq_ok h
      obtain ⟨ys, c, hline, h⟩ := bind_eq_ok h
      obtain ⟨zs, d, hmore, h⟩ := bind_eq_ok h
      cases h
      rcases ih hmore with ⟨hend, rfl⟩ | ⟨hnext, hlines⟩
      · rw [List.append_nil]
        exact .inr ⟨hk, .last hskip hline hend⟩
      · exact .inr ⟨hk, .more hskip hline hnext hlines⟩
    · rw [moreStatements_run_no hk] at h
      cases h
      exact .inl ⟨hb, rfl⟩

theorem lines_of_statementsWith (h : statementsWith e a = .ok (xs, b)) (hb : b.current.kind = .eof) :
    Lines (statement e) a xs := by
  obtain ⟨⟨⟩, a₀, hskip, h⟩ := bind_eq_ok h
  obtain ⟨ys, c, hline, h⟩ := bind_eq_ok h
  obtain ⟨zs, d, hmore, h⟩ := bind_eq_ok h
  cases h
  rcases lines_of_moreStatements hmore hb with ⟨hend, rfl⟩ | ⟨hnext, hlines⟩
  · rw [List.append_nil]
    exact .last hskip hline hend
  · exact .more hskip hline hnext hlines

/-- Passing over newlines takes the first one. -/
theorem left_lt_of_skipNewlines (hc : a.Closed) (hk : a.current.kind = .newline)
    (h : bounded skipNewlines a = .ok ((), b)) : b.left < a.left := by
  have hne : a.current.kind ≠ .eof := by rw [hk]; decide
  have hrun : skipNewlines (a.rest.length + 1 + 1) a = .ok ((), b) := h
  cases ha : a.advance with
  | error err =>
    have haccept : accept .newline a = .error err := by
      unfold accept
      rw [bind_run_ok (at?_run _ a), if_pos (beq_iff_eq.2 hk), bind_run, advance_run, ha]
      rfl
    rw [skipNewlines, bind_run, haccept] at hrun
    cases hrun
  | ok c =>
    rw [skipNewlines_run_newline hk ha] at hrun
    have hle := (Moves.skipNewlines _ c () b hrun).left_le (hc.advance ha)
    exact Nat.lt_of_le_of_lt hle (hc.left_lt hne ha)

/-- With a round for each token that is left, all lines are read. -/
theorem moreStatements_of_lines (hm : Moves e) (h : Lines (statement e) a xs) (hc : a.Closed)
    (hk : a.current.kind = .newline) {n : Nat} (hn : a.left < n) :
    ∃ b, moreStatements e n a = .ok (xs, b) ∧ b.current.kind = .eof := by
  have hafter : ∀ {a b c : Ahead} {xs : List Node}, a.Closed → a.current.kind = .newline →
      bounded skipNewlines a = .ok ((), b) → statement e b = .ok (xs, c) →
      c.Closed ∧ c.left < a.left := by
    intro a b c xs hc hk hskip hline
    have hb := Moves.bounded Moves.skipNewlines a () b hskip
    have hmoves := hm.statement b xs c hline
    have hlt := left_lt_of_skipNewlines hc hk hskip
    exact ⟨hmoves.closed (hb.closed hc), Nat.lt_of_le_of_lt (hmoves.left_le (hb.closed hc)) hlt⟩
  induction h generalizing n with
  | @last a b c xs hskip hline hend =>
    obtain ⟨-, hlt⟩ := hafter hc hk hskip hline
    obtain ⟨n, rfl⟩ : ∃ k, n = k + 1 + 1 := ⟨n - 2, by omega⟩
    have hnone : c.current.kind ≠ .newline := by rw [hend]; decide
    refine ⟨c, ?_, hend⟩
    rw [moreStatements_run_newline e hk, bind_run_ok hskip, bind_run_ok hline,
      bind_run_ok (moreStatements_run_no hnone n), List.append_nil, pure_run]
  | @more a b c xs ys hskip hline hnext hmore ih =>
    obtain ⟨hclosed, hlt⟩ := hafter hc hk hskip hline
    obtain ⟨n, rfl⟩ : ∃ k, n = k + 1 := ⟨n - 1, by omega⟩
    obtain ⟨d, hrun, hend⟩ := ih hclosed hnext (n := n) (by omega)
    refine ⟨d, ?_, hend⟩
    rw [moreStatements_run_newline e hk, bind_run_ok hskip, bind_run_ok hline, bind_run_ok hrun,
      pure_run]

theorem statementsWith_of_lines (hm : Moves e) (h : Lines (statement e) a xs) (hc : a.Closed) :
    ∃ b, statementsWith e a = .ok (xs, b) ∧ b.current.kind = .eof := by
  cases h with
  | @last _ b c _ hskip hline hend =>
    have hnone : c.current.kind ≠ .newline := by rw [hend]; decide
    refine ⟨c, ?_, hend⟩
    rw [statementsWith, bind_run_ok hskip, bind_run_ok hline,
      bind_run_ok (bounded_run _ c |>.trans (moreStatements_run_no hnone _)), List.append_nil, pure_run]
  | @more _ b c xs ys hskip hline hnext hmore =>
    have hclosed := (hm.statement b xs c hline).closed
      ((Moves.bounded Moves.skipNewlines a () b hskip).closed hc)
    obtain ⟨d, hrun, hend⟩ := moreStatements_of_lines hm hmore hclosed hnext c.left_lt_size
    refine ⟨d, ?_, hend⟩
    rw [statementsWith, bind_run_ok hskip, bind_run_ok hline,
      bind_run_ok (bounded_run _ c |>.trans hrun), pure_run]

/-! ## Lines of a text in a longer one -/

/-- Passing over newlines comes to positions that echo one another, or in the text to its end and in the
longer one past the newlines behind it. -/
theorem skip_echo {X : Excerpt} {a' : Ahead} (h : X.Echo a a')
    (hskip : bounded skipNewlines a = .ok ((), b)) :
    (∃ b', bounded skipNewlines a' = .ok ((), b') ∧ X.Echo b b') ∨
      (X.behind ≠ [] ∧ b.current.kind = .eof ∧
        bounded skipNewlines a' = bounded skipNewlines (before X.behind X.lastThere)) := by
  obtain ⟨ts, ts', hts, rfl, rfl⟩ := h
  rw [bounded_skipNewlines_before X.last_kind] at hskip
  cases hskip
  have htells := hts.dropWhile_isNewline
  have hecho : X.Echo (before (ts.dropWhile Token.isNewline) X.last)
      (before (ts'.dropWhile Token.isNewline ++ X.behind) X.lastThere) := ⟨_, _, htells, rfl, rfl⟩
  rw [bounded_skipNewlines_before X.lastThere_kind, bounded_skipNewlines_before X.lastThere_kind,
    List.dropWhile_append]
  split
  · rename_i hempty
    rw [List.isEmpty_iff] at hempty
    rw [hempty] at hecho htells
    by_cases hb : X.behind = []
    · rw [hb] at hecho ⊢
      exact .inl ⟨_, rfl, hecho⟩
    · rw [List.eq_nil_of_length_eq_zero htells.length_eq.symm]
      exact .inr ⟨hb, X.last_kind, rfl⟩
  · exact .inl ⟨_, rfl, hecho⟩

/-- **The lines of a text are read again in a longer one**, and then those behind them. -/
theorem Lines.carry {X : Excerpt} (hnewline : X.behind ≠ [] → X.next.kind = .newline)
    (hline : X.Carries X.Begun True (List.map Node.bare) line line')
    (hblank : ∀ a xs b, a.current.kind = .eof → line a = .ok (xs, b) → xs = [])
    {ds : List Node} (hnone : X.behind = [] → ds = [])
    (hsome : X.behind ≠ [] → Lines line' (before X.behind X.lastThere) ds)
    {a' : Ahead} (h : Lines line a xs) (ha : X.Echo a a') :
    ∃ xs', xs'.map Node.bare = xs.map Node.bare ∧ Lines line' a' (xs' ++ ds) := by
  have hend := Excerpt.EndsLine.of_newline hnewline
  induction h generalizing a' with
  | @last a b c xs hskip hrun hstop =>
    rcases skip_echo ha hskip with ⟨b', hskip', hb⟩ | ⟨hbehind, hkind, hskip'⟩
    · obtain ⟨xs', c', hrun', hxs, hc⟩ := hline.carry hb (fun _ => hend) hrun fun _ => trivial
      obtain rfl := hc.eq_behind hstop
      refine ⟨xs', hxs, ?_⟩
      by_cases hbehind : X.behind = []
      · rw [hnone hbehind, List.append_nil]
        refine .last hskip' hrun' ?_
        rw [hbehind]
        exact X.lastThere_kind
      · exact .more hskip' hrun' (hnewline hbehind) (hsome hbehind)
    · -- The last line of the text is empty: the newlines around it are passed at once.
      rw [hblank b xs c hkind hrun]
      exact ⟨[], rfl, (hsome hbehind).of_skip hskip'⟩
  | @more a b c xs ys hskip hrun hnext hmore ih =>
    rcases skip_echo ha hskip with ⟨b', hskip', hb⟩ | ⟨-, hkind, -⟩
    · obtain ⟨xs', c', hrun', hxs, hc⟩ := hline.carry hb (fun _ => hend) hrun fun _ => trivial
      obtain ⟨ys', hys, hlines⟩ := ih hc
      have hnext' : c'.current.kind = .newline :=
        (hc.alike (by rw [hnext]; decide)).kind.trans hnext
      refine ⟨xs' ++ ys', ?_, ?_⟩
      · rw [List.map_append, List.map_append, hxs, hys]
      · rw [List.append_assoc]
        exact .more hskip' hrun' hnext' hlines
    · -- From the end of input no newline is reached.
      have hstop := (hline.moves b xs c hrun).kind_eq_eof hkind
      rw [hnext] at hstop
      cases hstop

/-! ## Whole programs -/

/-- At the end of input stands no statement. -/
theorem statement_eof (hempty : ∀ {a x b}, a.current.kind = .eof → e a = .ok (x, b) → x.isEmpty = true)
    (hk : a.current.kind = .eof) (h : statement e a = .ok (xs, b)) : xs = [] := by
  rw [statement, bind_run_ok (at?_run _ a), hk] at h
  have hline : (do let node ← e; return if node.isEmpty then [] else [node] :
      Parser (List Node)) a = .ok (xs, b) := h
  obtain ⟨x, c, hx, hresult⟩ := bind_eq_ok hline
  rw [hempty hk hx] at hresult
  cases hresult
  rfl

/-- The lines of a program are read again in a longer one that allows deeper nesting. -/
theorem lines_in_excerpt {X : Excerpt} (hnewline : X.behind ≠ [] → X.next.kind = .newline) {n n' : Nat}
    (hn : n ≤ n') {ts ts' : List Token} (hts : Token.Retold X.next ts ts')
    (hkinds : ∀ t ∈ ts, t.kind ≠ .eof) {ds : List Node} (hnone : X.behind = [] → ds = [])
    (hsome : X.behind ≠ [] →
      Lines (statement (expr n' .ignored)) (before X.behind X.lastThere) ds)
    (h : Lines (statement (expr n .ignored)) (before ts X.last) xs) :
    ∃ xs', xs'.map Node.bare = xs.map Node.bare ∧
      Lines (statement (expr n' .ignored)) (before (ts' ++ X.behind) X.lastThere) (xs' ++ ds) := by
  have hend := Excerpt.EndsLine.of_newline hnewline
  have hexpr := (X.carries_grammar hn).1 .ignored True fun _ => .of_endsLine hend _
  have htells : X.Tells ts ts' := by
    refine .of_retold hts hkinds (fun hparen => absurd hparen (hend.ne (by decide))) fun _ => ?_
    exact .of_endsLine hend _
  exact h.carry hnewline (.statement (fun _ => hend) hexpr) (fun _ _ _ => statement_eof hexpr.empty) hnone
    hsome ⟨ts, ts', htells, rfl, rfl⟩

theorem lines_of_program {p : Node} (h : program a = .ok (p, b)) :
    b.current.kind = .eof ∧ ∃ cs span, p = .block cs span ∧
      Lines (statement (expr (2 * a.size + 1) .ignored)) a cs := by
  obtain ⟨first, a₀, hfirst, h⟩ := bind_eq_ok h
  cases hfirst
  obtain ⟨_, a₀, hget, h⟩ := bind_eq_ok h
  cases hget
  obtain ⟨cs, c, hcs, h⟩ := bind_eq_ok h
  obtain ⟨_, _, hlast, h⟩ := bind_eq_ok h
  cases hlast
  split at h
  · rename_i hk
    cases h
    exact ⟨hk, cs, _, rfl, lines_of_statementsWith hcs hk⟩
  · cases h

theorem program_of_lines {cs : List Node} (hc : a.Closed)
    (h : Lines (statement (expr (2 * a.size + 1) .ignored)) a cs) :
    ∃ span b, program a = .ok (.block cs span, b) := by
  obtain ⟨b, hrun, hk⟩ := statementsWith_of_lines ((Moves.grammar _).1 _) h hc
  refine ⟨some (a.current.span.upTo b.current.span), b, ?_⟩
  rw [program, bind_run_ok (current_run a), bind_run_ok (get_run a)]
  show (statements (2 * a.size + 1 + 1) >>= _) a = _
  rw [statements, bind_run_ok hrun, bind_run_ok (current_run b)]
  exact congrFun (if_pos hk) b

end Parser

/-- Where the tokens end with an error, the end of input is never reached. -/
theorem Ahead.Reaches.kind_ne_eof {a b : Ahead} (h : a.Reaches b) {err : Error}
    (he : a.ending = .error err) (hcurrent : a.current.kind ≠ .eof)
    (hrest : ∀ t ∈ a.rest, t.kind ≠ .eof) : b.current.kind ≠ .eof := by
  suffices b.ending = .error err ∧ b.current.kind ≠ .eof ∧ ∀ t ∈ b.rest, t.kind ≠ .eof from this.2.1
  induction h with
  | refl => exact ⟨he, hcurrent, hrest⟩
  | tail _ hs ih =>
    obtain ⟨hend, hk, hkinds⟩ := ih
    rcases advance_cases hs with ⟨hk', -⟩ | ⟨-, t, rest, hr, rfl⟩ | ⟨-, -, t, hok, -⟩
    · exact absurd hk' hk
    · rw [hr] at hkinds
      exact ⟨hend, hkinds t List.mem_cons_self, fun u hu => hkinds u (List.mem_cons_of_mem t hu)⟩
    · rw [hend] at hok
      cases hok

namespace Node

open Reckon.Parser Ahead

/-- The tokens of a text that is a program end with the end of input, and its lines are the children of
the program. -/
theorem lines_of_parse {file source : String} {program : Node} (h : parse file source = .ok program) :
    ∃ ts last cs span, TokenStream.ofChars file source.toList = ⟨ts, .ok last⟩ ∧
      program = .block cs span ∧
      Lines (statement (expr (2 * (before ts last).size + 1) .ignored)) (before ts last) cs := by
  obtain ⟨a, b, hstart, hrun⟩ := parse_eq_ok_iff.1 h
  obtain ⟨hend, cs, span, rfl, hlines⟩ := lines_of_program hrun
  have hkinds : ∀ t ∈ (TokenStream.ofChars file source.toList).tokens, t.kind ≠ .eof :=
    fun t ht => TokenStream.kind_ne_eof_of_mem_ofChars ht
  rcases hs : TokenStream.ofChars file source.toList with ⟨ts, ending⟩
  rw [hs] at hstart hkinds
  cases ending with
  | error err =>
    -- The parser has come to the end of input, so there is one.
    cases ts with
    | nil => cases hstart
    | cons t rest =>
      cases hstart
      have hmoves := Moves.program _ _ b hrun
      refine absurd hend (hmoves.kind_ne_eof rfl (hkinds t List.mem_cons_self) ?_)
      exact fun u hu => hkinds u (List.mem_cons_of_mem t hu)
  | ok last =>
    rw [start_eq_before] at hstart
    cases hstart
    exact ⟨ts, last, cs, span, rfl, rfl, hlines⟩

/-- **A program after another one.**  Two texts that are programs, with a newline between them, are a
program; its children are those of the first and then those of the second, up to spans. -/
theorem parse_join {file first second : String} {p q : Node} (hp : parse file first = .ok p)
    (hq : parse file second = .ok q) :
    ∃ cs ds es s t u, p = .block cs s ∧ q = .block ds t ∧
      parse file (first ++ "\n" ++ second) = .ok (.block es u) ∧
      es.map bare = cs.map bare ++ ds.map bare := by
  obtain ⟨ts, last₁, cs, s, hts, rfl, hcs⟩ := lines_of_parse hp
  obtain ⟨us, last₂, ds, t, hus, rfl, hds⟩ := lines_of_parse hq
  obtain ⟨d, ts', newline, us', last, hmoved₁, hnewline, hmoved₂, hjoin⟩ :=
    TokenStream.ofChars_join hts hus
  obtain ⟨hkinds₁, hlast₁⟩ := TokenStream.kind_of_ofChars hts
  obtain ⟨hkinds₂, hlast₂⟩ := TokenStream.kind_of_ofChars hus
  obtain ⟨-, hlast⟩ := TokenStream.kind_of_ofChars hjoin
  have hsize₁ : (before ts last₁).size ≤ (before (ts' ++ newline :: us') last).size := by
    rw [size_before, size_before, List.length_append, hmoved₁.length_eq]
    omega
  have hsize₂ : (before us last₂).size ≤ (before (ts' ++ newline :: us') last).size := by
    rw [size_before, size_before, List.length_append, List.length_cons, hmoved₂.length_eq]
    omega
  -- The second text stands at the end, the first one before the newline.
  have hkind : ∀ {k : Token.Kind}, k = .newline ∨ k = .eof → k ∉ Token.continuing := by
    rintro k (rfl | rfl) <;> decide
  let lower : Excerpt := ⟨[], last₂, last, hlast₂, hlast, hkind (.inr hlast)⟩
  let upper : Excerpt := ⟨newline :: us', last₁, last, hlast₁, hlast, hkind (.inl hnewline)⟩
  obtain ⟨n, hn⟩ : ∃ n, n = 2 * (before (ts' ++ newline :: us') last).size + 1 := ⟨_, rfl⟩
  have hlower : lower.EndsLine := .inr hlast
  have hupper : upper.EndsLine := .inl hnewline
  have hlines₂ : ∃ ds', ds'.map bare = ds.map bare ∧
      Lines (statement (expr n .ignored)) (before (us' ++ []) last) (ds' ++ []) :=
    lines_in_excerpt (X := lower) (absurd rfl) (by omega) (.of_moved (hlower.ne (by decide)) hmoved₂)
      hkinds₂ (fun _ => rfl) (absurd rfl) hds
  obtain ⟨ds', hds', hlines₂⟩ := hlines₂
  rw [List.append_nil, List.append_nil] at hlines₂
  have hskip : bounded skipNewlines (before (newline :: us') last) =
      bounded skipNewlines (before us' last) := by
    rw [bounded_skipNewlines_before hlast, bounded_skipNewlines_before hlast,
      List.dropWhile_cons_of_pos (Token.isNewline_iff.2 hnewline)]
  have hlines₁ : ∃ cs', cs'.map bare = cs.map bare ∧ Lines (statement (expr n .ignored))
      (before (ts' ++ newline :: us') last) (cs' ++ ds') :=
    lines_in_excerpt (X := upper) (fun _ => hnewline) (by omega) (.of_moved (hupper.ne (by decide)) hmoved₁)
      hkinds₁ (fun h => by cases h) (fun _ => hlines₂.of_skip hskip) hcs
  obtain ⟨cs', hcs', hlines⟩ := hlines₁
  rw [hn] at hlines
  obtain ⟨u, b, hrun⟩ := program_of_lines (closed_before hlast _) hlines
  refine ⟨cs, ds, cs' ++ ds', s, t, u, rfl, rfl, parse_eq_ok_iff.2 ⟨_, b, ?_, hrun⟩, ?_⟩
  · have htext : (first ++ "\n" ++ second).toList = first.toList ++ '\n' :: second.toList := by simp
    rw [htext, hjoin, start_eq_before]
  · rw [List.map_append, hcs', hds']

end Node

end Reckon
