import Reckon.Syntax.Parser

/-!
# One walk through the grammar

Whatever is shown of parsers without regard to where they start is shown from the same few pieces: a step that
looks at a token or takes one, a refusal, a question about an operator, and one step behind another.  A relation
between parsers that all pieces keep (`Uniform`) is therefore kept by the rules of the grammar, and so by the
grammar itself, however deep the nesting (`Uniform.grammar`).  This is the only proof that goes through the rules
for such relations.

Two parsers are compared because one of them may have larger bounds than the other: if a loop is not allowed
another round, or the nesting another level, nothing is asked of the parser that has more of them.  A property of
one parser is a relation that does not look at the second one.

Of a token the grammar uses the kind, the text and the place, but not which blanks stand around it
(`Token.seen`).  These only matter for whether it is an operator.
-/

namespace Reckon

/-- A token without the blanks around it. -/
def Token.seen (t : Token) : Token :=
  { t with blankBefore := false, blankAfter := false }

namespace Parser

/-- A relation between parsers that is kept by all that they are made of. -/
structure Uniform (C : (α : Type) → Parser α → Parser α → Prop) : Prop where
  pure : ∀ {α : Type} (x : α), C α (Pure.pure x) (Pure.pure x)
  bind : ∀ {α β : Type} {p q : Parser α} {f g : α → Parser β}, C α p q → (∀ x, C β (f x) (g x)) →
    C β (p >>= f) (q >>= g)
  current : ∀ {β : Type} {f g : Token → Parser β}, (∀ t, f t.seen = f t) → (∀ t, C β (f t) (g t)) →
    C β (current >>= f) (current >>= g)
  advance : ∀ {β : Type} {f g : Token → Parser β}, (∀ t, f t.seen = f t) → (∀ t, C β (f t) (g t)) →
    C β (advance >>= f) (advance >>= g)
  following : ∀ {β : Type} {f g : Token → Parser β}, (∀ t, f t.seen = f t) → (∀ t, C β (f t) (g t)) →
    C β (following >>= f) (following >>= g)
  refuse : ∀ {α : Type} (fault : SyntaxFault) (span : Option Span),
    C α (refuse fault span) (refuse fault span)
  refuseHere : ∀ {α : Type} (fault : Token → SyntaxFault), C α (refuseHere fault) (refuseHere fault)
  /-- A bound that is used up. -/
  tooNested : ∀ {α : Type} (p : Parser α), C α tooNested p
  /-- What is done with an operator may depend on the blanks around the current token. -/
  operator : ∀ {α : Type} {p q : Parser α} {f g : BinaryOp → Parser α} (spacing : Spacing) (bound : Nat),
    C α p q → (∀ op, C α (f op) (g op)) →
    C α
      (do
        match operator? spacing bound (← Parser.current) with
        | none => p
        | some op => f op)
      (do
        match operator? spacing bound (← Parser.current) with
        | none => q
        | some op => g op)
  /-- A loop may depend on how many tokens are left. -/
  sized : ∀ {α : Type} {f g : Nat → Parser α}, (∀ n, C α (f n) (g n)) →
    C α (get >>= fun a => f a.size) (get >>= fun a => g a.size)

namespace Uniform

variable {C : (α : Type) → Parser α → Parser α → Prop} {α β : Type} {n m : Nat}

/-- Two bounds are used up together, or the smaller one first. -/
theorem countdown {P : (n m : Nat) → n ≤ m → Prop} (zero : ∀ m, P 0 m (Nat.zero_le m))
    (succ : ∀ n m hnm, P n m hnm → P (n + 1) (m + 1) (Nat.succ_le_succ hnm)) (hnm : n ≤ m) :
    P n m hnm := by
  induction n generalizing m with
  | zero => exact zero m
  | succ n ih =>
    cases m with
    | zero => cases hnm
    | succ m => exact succ n m _ (ih (Nat.le_of_succ_le_succ hnm))

/-! ## Single tokens -/

theorem ite {c : Prop} [Decidable c] {p p' q q' : Parser α} (hp : C α p p') (hq : C α q q') :
    C α (if c then p else q) (if c then p' else q') := by
  by_cases hc : c
  · rwa [if_pos hc, if_pos hc]
  · rwa [if_neg hc, if_neg hc]

variable (h : Uniform C)

include h

theorem at? {f g : Bool → Parser β} (k : Token.Kind) (hf : ∀ c, C β (f c) (g c)) :
    C β (at? k >>= f) (at? k >>= g) :=
  h.bind (h.current (fun _ => rfl) fun _ => h.pure _) hf

theorem expect {f g : Token → Parser β} (k : Token.Kind) (hseen : ∀ t, f t.seen = f t)
    (hf : ∀ t, C β (f t) (g t)) : C β (expect k >>= f) (expect k >>= g) := by
  unfold Parser.expect
  rw [bind_assoc, bind_assoc]
  refine h.at? k fun c => ?_
  cases c with
  | true => exact h.advance hseen hf
  | false => exact h.bind (h.refuseHere _) hf

theorem accept {f g : Bool → Parser β} (k : Token.Kind) (hf : ∀ c, C β (f c) (g c)) :
    C β (accept k >>= f) (accept k >>= g) :=
  h.bind (h.at? k fun _ => ite (h.advance (fun _ => rfl) fun _ => h.pure _) (h.pure _)) hf

theorem require {f g : Node → Parser β} (x : Node) (hf : ∀ x, C β (f x) (g x)) :
    C β (require x >>= f) (require x >>= g) :=
  h.bind (ite (h.refuseHere _) (h.pure _)) hf

theorem bounded {loop loop' : Nat → Parser α} (hloop : ∀ n, C α (loop n) (loop' n)) :
    C α (bounded loop) (bounded loop') :=
  h.sized hloop

/-! ## The rules of the grammar -/

variable {factor factor' expr expr' element element' : Parser Node}
  {statements statements' : Parser (List Node)}

theorem climb (hf : C _ factor factor') (spacing : Spacing) (hnm : n ≤ m) :
    ∀ bound left, C _ (climb factor spacing n bound left) (climb factor' spacing m bound left) := by
  induction hnm using countdown with
  | zero m => exact fun _ _ => h.tooNested _
  | succ n m _ ih =>
    exact fun bound left => h.operator spacing bound (h.pure left) fun op => h.require _ fun _ =>
      h.advance (fun _ => rfl) fun _ => h.bind hf fun right => h.bind (ih op.level right) fun _ =>
        h.require _ fun _ => ih bound _

theorem binary (hf : C _ factor factor') (spacing : Spacing) (bound : Nat) :
    C _ (binary factor spacing bound) (binary factor' spacing bound) :=
  h.bind hf fun left => h.bounded fun _ => h.climb hf spacing (Nat.le_refl _) bound left

theorem ternaryWith (hf : C _ factor factor') (he : C _ expr expr') (spacing : Spacing) :
    C _ (ternaryWith factor expr spacing) (ternaryWith factor' expr' spacing) :=
  h.bind (h.binary hf _ _) fun _ => h.at? _ fun _ => ite
    (h.require _ fun _ => h.advance (fun _ => rfl) fun _ => h.bind he fun _ => h.require _ fun _ =>
      h.expect _ (fun _ => rfl) fun _ => h.bind he fun _ => h.require _ fun _ => h.pure _)
    (h.pure _)

theorem number : C _ number number := by
  refine h.advance (fun _ => rfl) fun t => h.current (fun _ => rfl) fun next => ?_
  cases LengthUnit.ofSymbol? next.text with
  | none => exact h.pure _
  | some unit => exact ite (h.advance (fun _ => rfl) fun _ => h.pure _) (h.pure _)

theorem identifier : C _ identifier identifier :=
  h.expect _ (fun _ => rfl) fun _ => h.pure _

theorem arguments (he : C _ expr expr') (hnm : n ≤ m) : C _ (arguments expr n) (arguments expr' m) := by
  induction hnm using countdown with
  | zero m => exact h.tooNested _
  | succ n m _ ih =>
    exact h.at? _ fun _ => ite (h.pure _) (h.bind he fun _ => h.require _ fun _ =>
      h.accept _ fun _ => ite (h.bind ih fun _ => h.pure _) (h.pure _))

theorem call (he : C _ expr expr') : C _ (call expr) (call expr') :=
  h.advance (fun _ => rfl) fun _ => h.expect _ (fun _ => rfl) fun _ =>
    h.bind (h.bounded fun _ => h.arguments he (Nat.le_refl _)) fun _ => h.expect _ (fun _ => rfl) fun _ => h.pure _

theorem parameters (function : String) (callSpan : Option Span) (params : List Identifier)
    (args : List Node) :
    C _ (parameters function callSpan params args) (parameters function callSpan params args) := by
  induction args generalizing params with
  | nil => exact h.pure _
  | cons arg rest ih =>
    unfold Parser.parameters
    cases arg.identifier? with
    | none => exact h.refuse _ _
    | some p => exact ite (h.refuse _ _) (ih _)

theorem body (he : C _ expr expr') (hs : C _ statements statements') :
    C _ (body expr statements) (body expr' statements') :=
  h.at? _ fun _ => ite
    (h.advance (fun _ => rfl) fun _ => h.bind hs fun _ => h.expect _ (fun _ => rfl) fun _ => h.pure _)
    (h.bind he fun _ => h.require _ fun _ => h.pure _)

theorem callOrDefinition (he : C _ expr expr') (hs : C _ statements statements') :
    C _ (callOrDefinition expr statements) (callOrDefinition expr' statements') :=
  h.bind (h.call he) fun _ => h.current (fun _ => rfl) fun _ => ite
    (h.advance (fun _ => rfl) fun _ => h.bind (h.parameters _ _ _ _) fun _ =>
      h.bind (h.body he hs) fun _ => h.pure _)
    (h.pure _)

theorem matrixRow (he : C _ element element') (hnm : n ≤ m) :
    C _ (matrixRow element n) (matrixRow element' m) := by
  induction hnm using countdown with
  | zero m => exact h.tooNested _
  | succ n m _ ih =>
    exact h.bind he fun _ => ite (h.refuseHere _) (h.current (fun _ => rfl) fun _ =>
      ite (h.pure _) (h.accept _ fun _ => h.bind ih fun _ => h.pure _))

theorem matrixRows (he : C _ element element') (hnm : n ≤ m) :
    C _ (matrixRows element n) (matrixRows element' m) := by
  induction hnm using countdown with
  | zero m => exact h.tooNested _
  | succ n m _ ih =>
    exact h.at? _ fun _ => ite (h.pure _) (h.bind (h.bounded fun _ => h.matrixRow he (Nat.le_refl _)) fun _ =>
      h.accept _ fun _ => h.bind ih fun _ => h.pure _)

theorem matrix (he : C _ element element') : C _ (matrix element) (matrix element') := by
  refine h.expect _ (fun _ => rfl) fun _ => h.bind (h.bounded fun _ => h.matrixRows he (Nat.le_refl _)) fun rows =>
    h.expect _ (fun _ => rfl) fun _ => ?_
  cases rows with
  | nil => exact h.refuse _ _
  | cons row rest =>
    dsimp only
    cases unevenRow? row.length 2 rest with
    | none => exact h.pure _
    | some uneven => exact h.refuse _ _

theorem factorWith {expr expr' : Spacing → Parser Node} (hf : C _ factor factor')
    (he : ∀ s, C _ (expr s) (expr' s)) (hs : C _ statements statements') :
    C _ (factorWith factor expr statements) (factorWith factor' expr' statements') := by
  refine h.current (fun _ => rfl) fun t => ?_
  cases UnaryOp.ofKind? t.kind with
  | some op =>
    exact h.advance (fun _ => rfl) fun _ => h.bind hf fun _ => h.require _ fun _ => h.pure _
  | none =>
    cases t.kind
    case number => exact h.number
    case lparen =>
      exact h.advance (fun _ => rfl) fun _ => h.bind (he _) fun _ => h.require _ fun _ =>
        h.expect _ (fun _ => rfl) fun _ => h.pure _
    case lbracket => exact h.matrix (he _)
    case reservedValue => exact h.advance (fun _ => rfl) fun _ => h.pure _
    case identifier =>
      exact h.following (fun _ => rfl) fun _ =>
        ite (h.callOrDefinition (he _) hs) (h.bind h.identifier fun _ => h.pure _)
    all_goals exact h.pure _

/-! ### Statements -/

theorem skipNewlines (hnm : n ≤ m) : C _ (skipNewlines n) (skipNewlines m) := by
  induction hnm using countdown with
  | zero m => exact h.tooNested _
  | succ n m _ ih =>
    exact h.accept _ fun _ => ite ih (h.pure _)

theorem assignment (he : C _ expr expr') : C _ (assignment expr) (assignment expr') := by
  have hvalue : ∀ f : Node → Node, C _ (expr >>= fun x => Parser.require x >>= fun x => Pure.pure (f x))
      (expr' >>= fun x => Parser.require x >>= fun x => Pure.pure (f x)) :=
    fun f => h.bind he fun _ => h.require _ fun _ => h.pure _
  refine h.bind h.identifier fun target => h.current (fun _ => rfl) fun t => ?_
  rcases assignment? t.kind with - | - | op
  · exact h.expect _ (fun _ => rfl) fun _ => hvalue _
  · exact h.expect _ (fun _ => rfl) fun _ => hvalue _
  · exact h.advance (fun _ => rfl) fun _ => hvalue _

theorem assignments (he : C _ expr expr') (hnm : n ≤ m) :
    C _ (assignments expr n) (assignments expr' m) := by
  induction hnm using countdown with
  | zero m => exact h.tooNested _
  | succ n m _ ih =>
    exact h.bind (h.assignment he) fun _ => h.accept _ fun _ => ite (h.bind ih fun _ => h.pure _) (h.pure _)

theorem statement (he : C _ expr expr') : C _ (statement expr) (statement expr') := by
  have hline : ∀ assigns : Bool, C _
      (if assigns = true then Parser.bounded (Parser.assignments expr)
        else expr >>= fun node => Pure.pure (if node.isEmpty then [] else [node]))
      (if assigns = true then Parser.bounded (Parser.assignments expr')
        else expr' >>= fun node => Pure.pure (if node.isEmpty then [] else [node])) :=
    fun _ => ite (h.bounded fun _ => h.assignments he (Nat.le_refl _)) (h.bind he fun _ => h.pure _)
  exact h.at? _ fun _ => ite (h.following (fun _ => rfl) fun _ => h.bind (h.pure _) hline)
    (h.bind (h.pure _) hline)

theorem moreStatements (he : C _ expr expr') (hnm : n ≤ m) :
    C _ (moreStatements expr n) (moreStatements expr' m) := by
  induction hnm using countdown with
  | zero m => exact h.tooNested _
  | succ n m _ ih =>
    exact h.at? _ fun _ => ite (h.bind (h.bounded fun _ => h.skipNewlines (Nat.le_refl _)) fun _ =>
      h.bind (h.statement he) fun _ => h.bind ih fun _ => h.pure _) (h.pure _)

theorem statementsWith (he : C _ expr expr') : C _ (statementsWith expr) (statementsWith expr') :=
  h.bind (h.bounded fun _ => h.skipNewlines (Nat.le_refl _)) fun _ => h.bind (h.statement he) fun _ =>
    h.bind (h.bounded fun _ => h.moreStatements he (Nat.le_refl _)) fun _ => h.pure _

/-- **The parsers of the grammar are related**, however deep the nesting. -/
theorem grammar (hnm : n ≤ m) :
    (∀ s, C _ (Parser.expr n s) (Parser.expr m s)) ∧ C _ (Parser.factor n) (Parser.factor m) ∧
      C _ (Parser.statements n) (Parser.statements m) := by
  induction hnm using countdown with
  | zero m => exact ⟨fun _ => h.tooNested _, h.tooNested _, h.tooNested _⟩
  | succ n m _ ih =>
    obtain ⟨he, hf, hs⟩ := ih
    exact ⟨fun s => h.ternaryWith hf (he s) s, h.factorWith hf he hs, h.statementsWith (he _)⟩

theorem program : C _ Parser.program Parser.program := by
  refine h.current (fun _ => rfl) fun first => ?_
  have hlines : ∀ n, C _ (do
      let children ← Parser.statements (2 * n + 2)
      let last ← Parser.current
      if last.kind = .eof then return Node.block children (some (first.span.upTo last.span))
      else Parser.refuseHere .unexpected) (do
      let children ← Parser.statements (2 * n + 2)
      let last ← Parser.current
      if last.kind = .eof then return Node.block children (some (first.span.upTo last.span))
      else Parser.refuseHere .unexpected) :=
    fun n => h.bind (h.grammar (Nat.le_refl _)).2.2 fun _ =>
      h.current (fun _ => rfl) fun _ => ite (h.pure _) (h.refuseHere _)
  exact h.sized hlines

end Uniform

end Parser

end Reckon
