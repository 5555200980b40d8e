import Reckon.Proofs.Parsing.Excerpt

/-!
# The rules of the grammar in a longer text

Each rule is followed from an excerpt to the longer text (`Excerpt.Carries`).  Operands, expressions and
lines can end with the excerpt: an expression if its spacing lets it end there (`Excerpt.Ends`), and
whatever reads on over blanks in the longer text is excluded by the excerpt (`Excerpt.OpensBody`).
Arguments, rows of a matrix and blocks end with a sign that belongs to the excerpt, so they are followed
inside it only.  The three nested parsers are done together, by induction on the nesting
(`carries_grammar`).
-/

namespace Reckon.Excerpt

open Reckon.Parser
open Ahead (before)

variable {X : Excerpt} {pre : Ahead → Prop} {reach : Prop}
  {factor factor' expr expr' element element' : Parser Node}
  {statements statements' : Parser (List Node)}

/-! ## Operators -/

theorem operator?_eof {t : Token} (ht : t.kind = .eof) (spacing : Spacing) (bound : Nat) :
    operator? spacing bound t = none := by
  unfold operator?
  rw [ht]
  rfl

/-- At the end of input no operator goes on with an operand. -/
theorem climb_eof {a b : Ahead} {spacing : Spacing} {n bound : Nat} {left x : Node}
    (hk : a.current.kind = .eof) (h : climb factor spacing n bound left a = .ok (x, b)) : x = left := by
  cases n with
  | zero => cases h
  | succ n =>
    rw [climb, bind_run_ok (current_run a), operator?_eof hk] at h
    cases h
    rfl

theorem Carries.climb (hf : X.Operand reach factor factor') {spacing : Spacing}
    (hs : reach → X.Ends spacing) {n n' : Nat} (hn : n ≤ n') (bound : Nat) {left left' : Node}
    (hleft : left'.bare = left.bare) :
    X.Carries pre reach Node.bare (climb factor spacing n bound left)
      (climb factor' spacing n' bound left') := by
  induction n generalizing n' bound left left' pre with
  | zero => exact .tooNested
  | succ n ih =>
    obtain ⟨n', rfl⟩ : ∃ k, n' = k + 1 := ⟨n' - 1, by omega⟩
    refine .current fun t t' ht => ?_
    rcases ht with ht | ⟨hend, rfl⟩
    · rw [ht.operator]
      split
      · exact .pure hleft
      · rename_i op hop
        have hkind : t.kind ≠ .eof ∧ t.kind ≠ .number := by
          constructor <;> intro hk <;> simp [operator?, hk, BinaryOp.ofKind?] at hop
        have hright : X.Operand reach (factor >>= fun x => Parser.climb factor spacing n op.level x)
            (factor' >>= fun x => Parser.climb factor' spacing n' op.level x) :=
          hf.andThen (fun _ _ hx => ih (by omega) op.level hx) climb_eof
        have hjoined : ∀ right right' : Node, right'.bare = right.bare →
            X.Carries anywhere reach Node.bare
              (Parser.climb factor spacing n bound
                (.binary left op right (Span.join left.span right.span)))
              (Parser.climb factor' spacing n' bound
                (.binary left' op right' (Span.join left'.span right'.span))) :=
          fun right right' hx => ih (by omega) bound (by simp only [Node.bare, hleft, hx])
        have hrest : X.Carries anywhere reach Node.bare _ _ := hright.bind hjoined
        refine .require hleft (Carries.bind (Carries.advance ?_) fun _ _ _ => ?_)
        · rintro a ⟨-, rfl⟩
          exact hkind
        · simpa only [bind_assoc] using hrest
    · rw [operator?_eof hend]
      refine .at_end (Moves.pure _) (fun a ha => ha.2 ▸ hend) fun hreach => ?_
      rw [hs hreach bound]
      exact .pure hleft

theorem Operand.binary (hf : X.Operand reach factor factor') {spacing : Spacing}
    (hs : reach → X.Ends spacing) (bound : Nat) :
    X.Operand reach (binary factor spacing bound) (binary factor' spacing bound) :=
  hf.andThen (fun _ _ hleft => .bounded fun _ _ hn => .climb hf hs hn bound hleft) climb_eof

theorem Operand.ternaryWith (hf : X.Operand reach factor factor') (he : X.Operand reach expr expr')
    {spacing : Spacing} (hs : reach → X.Ends spacing) :
    X.Operand reach (ternaryWith factor expr spacing) (ternaryWith factor' expr' spacing) := by
  refine (hf.binary hs _).andThen (fun c c' hc => ?_) fun {a x y b} hend hrun => ?_
  · refine .at? .question (by decide) (fun _ => X.next_ne (by decide)) ?_ (.pure hc)
    have hmark : ∀ a : Ahead, anywhere a ∧ a.current.kind = .question →
        a.current.kind ≠ .eof ∧ a.current.kind ≠ .number := by
      intro a ha
      rw [ha.2]
      decide
    refine .require hc ((Carries.advance hmark).bind fun _ _ _ => he.bind fun y y' hy => ?_)
    refine (Carries.expect .colon (by decide)).bind fun _ _ _ => he.bind fun n n' hn => .pure ?_
    simp only [Node.bare, hc, hy, hn]
  · rw [bind_run_ok (at?_run _ a), hend] at hrun
    cases hrun
    rfl

/-! ## Numbers and names -/

theorem Carries.number :
    X.Carries (fun a => a.current.kind = .number) reach Node.bare number number := by
  have hne : ∀ {t : Token}, t.kind = .number → t.kind ≠ .eof := fun ht => by rw [ht]; decide
  have hvalue : ∀ {t t' : Token}, t.Alike t' → t'.value = t.value := fun ht => by
    unfold Token.value
    rw [ht.text]
  refine ⟨Moves.number, fun he hk hrun _ => ?_⟩
  obtain ⟨ts, ts', hts, rfl, rfl⟩ := he
  cases hts with
  | nil => exact absurd X.last_kind (hne hk)
  | token _ hkind _ _ _ => exact absurd hk hkind.2
  | @number t t' ts ts' ht _ halone halone' htail =>
    rw [number_alone (t := t) (hne hk) halone] at hrun
    cases hrun
    refine ⟨_, _, number_alone (ht.kind ▸ hne hk) halone', ?_, ts, ts', htail, rfl, rfl⟩
    simp only [Node.bare, hvalue ht]
  | @measure t t' u u' ts ts' ht _ hunit hunit' htext htail =>
    obtain ⟨unit, hsymbol⟩ := Option.isSome_iff_exists.1 hunit.2.1
    rw [number_unit (t := t) (hne hk) hunit hsymbol] at hrun
    cases hrun
    refine ⟨_, _, number_unit (ht.kind ▸ hne hk) hunit' (htext ▸ hsymbol), ?_, ts, ts', htail, rfl, rfl⟩
    simp only [Node.bare, hvalue ht]

theorem Carries.identifier : X.Carries pre reach Identifier.bare identifier identifier := by
  refine (expect .identifier (by decide)).bind fun t t' ht => .pure ?_
  simp only [Identifier.bare, ht]

/-! ## Calls and definitions -/

theorem Carries.arguments (he : X.Operand False expr expr') :
    X.Carries anywhere False (List.map Node.bare) (Parser.bounded (arguments expr))
      (Parser.bounded (arguments expr')) := by
  refine bounded fun _ _ => rounds rfl fun n n' ih => ?_
  refine .at? .rparen (by decide) False.elim (.pure rfl) (he.bind fun x x' hx => ?_)
  refine (accept .comma (by decide) False.elim).bind fun c c' hc => ?_
  obtain rfl : c' = c := hc
  cases c' with
  | true => exact ih.bind fun xs xs' hxs => .pure (by rw [List.map_cons, List.map_cons, hx, hxs])
  | false => exact .pure (by rw [List.map_cons, List.map_cons, hx, List.map_nil])

theorem Carries.call (he : X.Operand False expr expr') :
    X.Carries (fun a => a.current.kind = .identifier) reach (fun c => (c.1, c.2.1.map Node.bare))
      (call expr) (call expr') := by
  refine (advance fun a ha => by rw [ha]; decide).bind fun t t' ht => ?_
  refine (expect .lparen (by decide)).bind fun _ _ _ => ?_
  exact (Carries.arguments he).bind_expect (by decide) fun xs xs' hxs _ _ => .pure (by rw [ht, hxs])

theorem Carries.parameters (function : String) (span span' : Option Span) {ps ps' : List Identifier}
    (hps : ps'.map Identifier.bare = ps.map Identifier.bare) {args args' : List Node}
    (hargs : args'.map Node.bare = args.map Node.bare) :
    X.Carries pre reach (List.map Identifier.bare) (parameters function span ps args)
      (parameters function span' ps' args') := by
  induction args generalizing ps ps' args' with
  | nil =>
    rw [List.map_eq_nil_iff.1 hargs]
    exact .pure hps
  | cons arg args ih =>
    cases args' with
    | nil => cases hargs
    | cons arg' args' =>
      obtain ⟨harg, hargs⟩ := List.cons.inj hargs
      have hid : arg'.identifier?.map Identifier.bare = arg.identifier?.map Identifier.bare := by
        rw [← Node.identifier?_bare, harg, Node.identifier?_bare]
      unfold Parser.parameters
      dsimp only
      cases hp : arg.identifier? with
      | none => exact .refuse _ _
      | some p =>
        rw [hp, Option.map_some, Option.map_eq_some_iff] at hid
        obtain ⟨p', hp', hbare⟩ := hid
        have hname : p'.name = p.name := (Identifier.mk.inj hbare).1
        have hany : (ps'.any fun q => q.name == p'.name) = ps.any fun q => q.name == p.name := by
          have hsame := congrArg (List.any · fun q => q.name == p.name) hps
          rw [List.any_map, List.any_map] at hsame
          rw [hname]
          exact hsame
        rw [hp']
        simp only [hany]
        split
        · exact .refuse _ _
        · refine ih ?_ hargs
          simp only [List.map_append, hps, List.map_cons, hbare, List.map_nil]

/-- The body of a definition.  An expression comes to the end of the excerpt only where the excerpt lets a
body end. -/
theorem Carries.body (he : X.Operand (X.Ends .ignored) expr expr')
    (hstart : ∀ {a x b}, X.OpensBody a → expr a = .ok (x, b) → x.isEmpty = false →
      b.current.kind = .eof → X.Ends .ignored)
    (hs : X.Carries anywhere False (List.map Node.bare) statements statements') :
    X.Carries X.OpensBody reach (fun c => c.1.map Node.bare) (body expr statements)
      (body expr' statements') := by
  refine .at? .lbrace (by decide) (fun _ => X.next_ne (by decide)) ?_ ?_
  · refine (advance fun a ha => by rw [ha.2]; decide).bind fun _ _ _ => ?_
    exact hs.bind_expect (by decide) fun xs xs' hxs _ _ => .pure hxs
  · have hexpr : X.Carries X.OpensBody (X.Ends .ignored) (fun c => c.1.map Node.bare)
        (expr >>= fun x => Parser.require x >>= fun value => Pure.pure ([value], value.span))
        (expr' >>= fun x => Parser.require x >>= fun value => Pure.pure ([value], value.span)) :=
      he.bind fun x x' hx => .pure (by simp only [List.map_cons, hx, List.map_nil])
    refine ⟨hexpr.moves, fun hecho hopens hrun _ => hexpr.carry hecho hopens hrun fun hend => ?_⟩
    obtain ⟨x, b, hx, hvalue⟩ := bind_eq_ok hrun
    obtain ⟨_, _, hrequire, hpure⟩ := bind_eq_ok hvalue
    obtain ⟨rfl, rfl, hsome⟩ := require_eq_ok hrequire
    cases hpure
    exact hstart hopens hx hsome hend

theorem Carries.callOrDefinition (he : ∀ reach : Prop, (reach → X.Ends .ignored) →
      X.Operand reach expr expr')
    (hstart : ∀ {a x b}, X.OpensBody a → expr a = .ok (x, b) → x.isEmpty = false →
      b.current.kind = .eof → X.Ends .ignored)
    (hs : X.Carries anywhere False (List.map Node.bare) statements statements') :
    X.Carries (fun a => a.current.kind = .identifier) reach Node.bare
      (callOrDefinition expr statements) (callOrDefinition expr' statements') := by
  refine (Carries.call (he False False.elim)).bind ?_
  rintro ⟨name, args, span⟩ ⟨name', args', span'⟩ hcall
  obtain ⟨rfl, hargs⟩ := Prod.mk.inj hcall
  refine .current fun t t' ht => ?_
  have hsame : (t'.kind = .assign ∨ t'.kind = .fatArrow) ↔ (t.kind = .assign ∨ t.kind = .fatArrow) := by
    rcases ht with ht | ⟨hend, rfl⟩
    · rw [ht.kind]
    · simp [hend, X.next_ne (k := .assign) (by decide), X.next_ne (k := .fatArrow) (by decide)]
  simp only [hsame]
  split
  · rename_i hdefines
    refine .bind_advance_body (fun a ha => ha.2 ▸ hdefines) fun _ _ => ?_
    refine (Carries.parameters _ span span' rfl hargs).bind_steady eq_of_parameters fun ps ps' hps => ?_
    refine (Carries.body (he _ id) hstart hs).bind ?_
    rintro ⟨cs, bs⟩ ⟨cs', bs'⟩ hcs
    exact .pure (by simp only [Node.bare, Node.bareList_eq_map, hps, hcs])
  · exact .pure (by simp only [Node.bare, Node.bareList_eq_map, hargs])

/-! ## Matrices -/

theorem Carries.matrixRow (he : X.Operand False element element') :
    X.Carries anywhere False (List.map Node.bare) (Parser.bounded (matrixRow element))
      (Parser.bounded (matrixRow element')) := by
  refine bounded fun _ _ => rounds rfl fun n n' ih => ?_
  refine he.bind_of_refused (fun hempty => ?_) fun x x' hx => ?_
  · rw [if_pos hempty]
    exact fun h => by cases h
  · rw [Node.isEmpty_eq_of_bare hx]
    split
    · exact .refuseHere _
    · have hcomma : X.Carries anywhere False id (Parser.accept .comma) (Parser.accept .comma) :=
        accept .comma (by decide) False.elim
      have hmore : X.Carries anywhere False (List.map Node.bare)
          (Parser.accept .comma >>= fun _ =>
            Parser.matrixRow element n >>= fun xs => Pure.pure (x :: xs))
          (Parser.accept .comma >>= fun _ =>
            Parser.matrixRow element' n' >>= fun xs => Pure.pure (x' :: xs)) :=
        hcomma.bind fun _ _ _ => ih.bind fun xs xs' hxs =>
          .pure (by rw [List.map_cons, List.map_cons, hx, hxs])
      refine .current fun t t' ht => ?_
      rcases ht with ht | ⟨hend, -⟩
      · rw [ht.kind]
        split
        · exact .pure (by rw [List.map_cons, List.map_cons, hx, List.map_nil])
        · exact hmore.at_pre fun _ _ => trivial
      · refine .at_end ?_ (fun a ha => ha.2 ▸ hend) False.elim
        exact (Moves.pure _).ite hmore.moves

theorem Carries.matrixRows (he : X.Operand False element element') :
    X.Carries anywhere False (List.map (List.map Node.bare)) (Parser.bounded (matrixRows element))
      (Parser.bounded (matrixRows element')) := by
  refine bounded fun _ _ => rounds rfl fun n n' ih => ?_
  refine .at? .rbracket (by decide) False.elim (.pure rfl) ?_
  refine (Carries.matrixRow he).bind fun row row' hrow => ?_
  refine (accept .semicolon (by decide) False.elim).bind fun _ _ _ => ?_
  exact ih.bind fun rows rows' hrows => .pure (by rw [List.map_cons, List.map_cons, hrow, hrows])

theorem unevenRow?_congr {rows rows' : List (List Node)}
    (h : rows'.map (List.map Node.bare) = rows.map (List.map Node.bare)) (width index : Nat) :
    unevenRow? width index rows' = unevenRow? width index rows := by
  induction rows generalizing rows' index with
  | nil => rw [List.map_eq_nil_iff.1 h]
  | cons row rows ih =>
    cases rows' with
    | nil => cases h
    | cons row' rows' =>
      obtain ⟨hrow, hrows⟩ := List.cons.inj h
      have hlen : row'.length = row.length := by simpa using congrArg List.length hrow
      simp only [unevenRow?, hlen, ih hrows]

theorem Carries.matrix (he : X.Operand False element element') :
    X.Carries pre reach Node.bare (matrix element) (matrix element') := by
  refine (expect .lbracket (by decide)).bind fun _ _ _ => ?_
  refine (Carries.matrixRows he).bind_expect (by decide) fun rows rows' hrows _ _ => ?_
  cases rows with
  | nil => exact .refuse _ _
  | cons row rows =>
    cases rows' with
    | nil => cases hrows
    | cons row' rows' =>
      obtain ⟨hrow, hrest⟩ := List.cons.inj hrows
      have hlen : row'.length = row.length := by simpa using congrArg List.length hrow
      dsimp only
      rw [hlen, unevenRow?_congr hrest]
      split
      · exact .refuse _ _
      · exact .pure (by simp only [Node.bare, Node.bareRows_eq_map, hrows])

/-! ## All operands -/

theorem Operand.factorWith {expr expr' : Spacing → Parser Node} (hf : X.Operand reach factor factor')
    (he : ∀ s (reach : Prop), (reach → X.Ends s) → X.Operand reach (expr s) (expr' s))
    (hstart : ∀ {a x b}, X.OpensBody a → expr .ignored a = .ok (x, b) → x.isEmpty = false →
      b.current.kind = .eof → X.Ends .ignored)
    (hs : X.Carries anywhere False (List.map Node.bare) statements statements') :
    X.Operand reach (factorWith factor expr statements) (factorWith factor' expr' statements') := by
  constructor
  · refine .current fun t t' ht => ?_
    have hkinds : ∀ {k : Token.Kind}, k ≠ .eof ∧ k ≠ .number → t.kind = k → ∀ a : Ahead,
        X.Begun a ∧ a.current = t → a.current.kind ≠ .eof ∧ a.current.kind ≠ .number := by
      intro k hk hkind a ha
      rw [ha.2, hkind]
      exact hk
    rcases ht with ht | ⟨hend, rfl⟩
    · rw [ht.kind, ht.text]
      split
      · rename_i op hop
        have hsign : t.kind ≠ .eof ∧ t.kind ≠ .number := by
          constructor <;> intro hk <;> rw [hk] at hop <;> cases hop
        refine (Carries.advance (hkinds hsign rfl)).bind fun _ _ _ => hf.bind fun x x' hx => .pure ?_
        simp only [Node.bare, hx]
      · split
        · rename_i hk
          exact Carries.number.at_pre fun a ha => by rw [ha.2, hk]
        · rename_i hk
          refine (Carries.advance (hkinds (by decide) hk)).bind fun _ _ _ => ?_
          have hinner : X.Carries anywhere False Node.bare
              (expr .ignored >>= fun x => require x >>= Pure.pure)
              (expr' .ignored >>= fun x => require x >>= Pure.pure) :=
            (he .ignored False False.elim).bind fun x x' hx => .pure hx
          have hclosed : X.Carries anywhere reach Node.bare
              ((expr .ignored >>= fun x => require x >>= Pure.pure) >>= fun x =>
                Parser.expect .rparen >>= fun _ => Pure.pure x)
              ((expr' .ignored >>= fun x => require x >>= Pure.pure) >>= fun x =>
                Parser.expect .rparen >>= fun _ => Pure.pure x) :=
            hinner.bind_expect (by decide) fun x x' hx _ _ => .pure hx
          simpa only [bind_assoc, pure_bind] using hclosed
        · exact Carries.matrix (he .matters False False.elim)
        · rename_i hk
          exact (Carries.advance (hkinds (by decide) hk)).bind fun _ _ _ => .pure rfl
        · rename_i hk
          refine .following (fun a ha => by rw [ha.2, hk]) fun u u' hparen _ => ?_
          simp only [hparen]
          split
          · exact (Carries.callOrDefinition (he .ignored) hstart hs).at_pre fun a ha => by rw [ha.2, hk]
          · refine Carries.identifier.bind fun i i' hi => .pure ?_
            simp only [Node.bare, (Identifier.mk.inj hi).1]
        · exact .pure rfl
    · -- No operand starts where the line ends.
      rw [hend]
      refine ⟨Moves.pure _, fun {a a' x b} hecho hbegun hrun hb => ?_⟩
      have hnone : X.Carries anywhere reach Node.bare (Pure.pure (Node.empty (some t.span)))
          (Pure.pure (Node.empty (some X.next.span))) := .pure rfl
      rcases hbegun.1 (hbegun.2 ▸ hend) with hk | hk <;> rw [hk] <;>
        exact hnone.carry hecho trivial hrun hb
  · intro a x b hend hrun
    rw [Parser.factorWith, bind_run_ok (current_run a), hend] at hrun
    cases hrun
    rfl

/-! ## Lines -/

theorem EndsLine.ne (h : X.EndsLine) {k : Token.Kind} (hk : k ≠ .newline ∧ k ≠ .eof) :
    X.next.kind ≠ k := by
  rintro rfl
  exact h.elim hk.1 hk.2

theorem Carries.assignment (he : X.Operand reach expr expr') :
    X.Carries pre reach Node.bare (assignment expr) (assignment expr') := by
  refine Carries.identifier.bind fun i i' hi => .current fun t t' ht => ?_
  have hname : i'.name = i.name := (Identifier.mk.inj hi).1
  have hsame : assignment? t'.kind = assignment? t.kind := by
    rcases ht with ht | ⟨hend, rfl⟩
    · rw [ht.kind]
    · rw [X.assignment?_next, hend]
      rfl
  rw [hsame]
  split
  · rename_i op hop
    have hkind : t.kind ≠ .eof ∧ t.kind ≠ .number := by
      constructor <;> intro hk <;> rw [hk] at hop <;> cases hop
    refine Carries.bind (Carries.advance ?_) fun _ _ _ => he.bind fun x x' hx => .pure ?_
    · rintro a ⟨-, rfl⟩
      exact hkind
    · simp only [Node.bare, hi, hname, hx]
  · refine (Carries.expect .assign (by decide)).bind fun _ _ _ => he.bind fun x x' hx => .pure ?_
    simp only [Node.bare, hi, hx]

theorem Carries.assignments (hr : reach → X.EndsLine) (he : X.Operand reach expr expr') :
    X.Carries anywhere reach (List.map Node.bare) (Parser.bounded (assignments expr))
      (Parser.bounded (assignments expr')) := by
  refine bounded fun _ _ => rounds rfl fun n n' ih => (Carries.assignment he).bind fun x x' hx => ?_
  refine (accept .comma (by decide) fun h => (hr h).ne (by decide)).bind fun c c' hc => ?_
  obtain rfl : c' = c := hc
  cases c' with
  | true => exact ih.bind fun xs xs' hxs => .pure (by rw [List.map_cons, List.map_cons, hx, hxs])
  | false => exact .pure (by rw [List.map_cons, List.map_cons, hx, List.map_nil])

theorem Carries.statement (hr : reach → X.EndsLine) (he : X.Operand reach expr expr') :
    X.Carries X.Begun reach (List.map Node.bare) (statement expr) (statement expr') := by
  have hline : ∀ assigns : Bool, X.Carries X.Begun reach (List.map Node.bare)
      (if assigns = true then Parser.bounded (Parser.assignments expr)
        else do
          let node ← expr
          return if node.isEmpty then [] else [node])
      (if assigns = true then Parser.bounded (Parser.assignments expr')
        else do
          let node ← expr'
          return if node.isEmpty then [] else [node]) := by
    intro assigns
    cases assigns with
    | true => exact (Carries.assignments hr he).at_pre fun _ _ => trivial
    | false =>
      refine he.carries.bind fun x x' hx => .pure ?_
      rw [Node.isEmpty_eq_of_bare hx]
      split
      · rfl
      · simp only [List.map_cons, hx, List.map_nil]
  refine .at? .identifier (by decide) (fun h => (hr h).ne (by decide)) ?_ ?_
  · refine .following (fun a ha => ha.2) fun u u' _ hassign => ?_
    rw [hassign, pure_bind, pure_bind]
    exact (hline _).at_pre fun a ha => ha.1
  · exact hline false

/-! ## Blocks -/

theorem Carries.skipNewlines {n n' : Nat} (hn : n ≤ n') :
    X.Carries anywhere False id (skipNewlines n) (skipNewlines n') := by
  refine rounds rfl (fun n n' ih => ?_) hn
  refine (accept .newline (by decide) False.elim).bind fun c c' hc => ?_
  obtain rfl : c' = c := hc
  cases c' with
  | true => exact ih
  | false => exact .pure rfl

/-- A line of a block, which ends inside the excerpt. -/
theorem Carries.statement_inside (he : X.Operand False expr expr') :
    X.Carries anywhere False (List.map Node.bare) (Parser.statement expr) (Parser.statement expr') :=
  (Carries.statement False.elim he).inside fun _ hk hend => absurd hend hk

theorem Carries.moreStatements (he : X.Operand False expr expr') {n n' : Nat} (hn : n ≤ n') :
    X.Carries anywhere False (List.map Node.bare) (moreStatements expr n) (moreStatements expr' n') := by
  refine rounds rfl (fun n n' ih => ?_) hn
  refine .at? .newline (by decide) False.elim ?_ (.pure rfl)
  refine (Carries.bounded fun _ _ hn => (Carries.skipNewlines hn).at_pre fun _ _ => trivial).bind
    fun _ _ _ => ?_
  refine (Carries.statement_inside he).bind fun xs xs' hxs => ih.bind fun ys ys' hys => .pure ?_
  rw [List.map_append, List.map_append, hxs, hys]

theorem Carries.statementsWith (he : X.Operand False expr expr') :
    X.Carries anywhere False (List.map Node.bare) (statementsWith expr) (statementsWith expr') := by
  refine (Carries.bounded fun _ _ hn => Carries.skipNewlines hn).bind fun _ _ _ => ?_
  refine (Carries.statement_inside he).bind fun xs xs' hxs => ?_
  refine (Carries.bounded fun _ _ hn => Carries.moreStatements he hn).bind fun ys ys' hys => .pure ?_
  rw [List.map_append, List.map_append, hxs, hys]

/-! ## The grammar -/

/-- Each parser of the grammar, however deep the nesting. -/
theorem carries_grammar (X : Excerpt) {n n' : Nat} (hn : n ≤ n') :
    (∀ s (reach : Prop), (reach → X.Ends s) →
        X.Operand reach (Parser.expr n s) (Parser.expr n' s)) ∧
      (∀ reach : Prop, X.Operand reach (Parser.factor n) (Parser.factor n')) ∧
      X.Carries anywhere False (List.map Node.bare) (Parser.statements n) (Parser.statements n') := by
  induction n generalizing n' with
  | zero =>
    have hzero : ∀ {reach : Prop} {p' : Parser Node}, X.Operand reach tooNested p' :=
      ⟨.tooNested, fun _ h => by cases h⟩
    exact ⟨fun _ _ _ => hzero, fun _ => hzero, .tooNested⟩
  | succ n ih =>
    obtain ⟨n', rfl⟩ : ∃ k, n' = k + 1 := ⟨n' - 1, by omega⟩
    obtain ⟨he, hf, hs⟩ := ih (Nat.le_of_succ_le_succ hn)
    refine ⟨fun s reach hr => (hf reach).ternaryWith (he s reach hr) hr, fun reach => ?_,
      .statementsWith (he .ignored False False.elim)⟩
    exact (hf reach).factorWith he (fun hopens hx => hopens n _ _ hx) hs

end Reckon.Excerpt
