import Mathlib.Data.List.Chain
import Reckon.Proofs.Parsing.Layers

/-!
# The grammar

What a program is, as sequences of tokens and without regard to how they are read (`Derives`):

    program     := statements EOF
    statements  := {NEWLINE} statement {NEWLINE {NEWLINE} statement}
    statement   := assignments | expr | nothing
    assignments := assignment {"," assignment}
    assignment  := IDENTIFIER ("=" | "+=" | "-=" | "*=" | "/=") expr
    expr        := layer ["?" expr ":" expr]
    layer       := tighter layer {OPERATOR tighter layer}, down to factor
    factor      := ("+" | "-" | "!") factor | NUMBER [UNIT] | "(" expr ")" | "[" rows "]"
                 | RESERVED_VALUE | IDENTIFIER
                 | IDENTIFIER "(" arguments ")" [("=" | "=>") body]
    arguments   := [expr {"," expr}]
    body        := "{" statements "}" | expr
    rows        := row {";" row} [";"]
    row         := expr {[","] expr}

There are eight layers of operators.  In a matrix row blanks decide which `+` and `-` are operators;
blanks are no tokens, so elements without a comma between them just follow one another.

An argument list does not end with a comma.  Nor does anything else that can stand before a closing
parenthesis, and nothing starts with one; so a derivable sequence has no comma right before a closing
parenthesis (`Derives.tidy`).
-/

namespace Reckon.Grammar

/-- What a sequence of tokens can be. -/
inductive Category where
  | program
  | statements
  | statement
  | assignments
  | expr (spacing : Parser.Spacing)
  /-- Operators of a level below `bound`. -/
  | layer (spacing : Parser.Spacing) (bound : Nat)
  | factor
  | arguments
  /-- Arguments, of which there is at least one. -/
  | argumentList
  | body
  | rows
  | row
deriving DecidableEq

/-- The token is a unit that touches the number. -/
structure IsUnitOf (number unit : Token) : Prop where
  kind : unit.kind = .identifier
  known : (LengthUnit.ofSymbol? unit.text).isSome = true
  line : unit.span.startLine = number.span.endLine
  column : unit.span.startCol = number.span.endCol + 1

/-- The sequences of tokens of each category. -/
inductive Derives : Category → List Token → Prop where
  -- Operands
  | sign {t : Token} {op : UnaryOp} {ts : List Token} (sign : UnaryOp.ofKind? t.kind = some op)
      (operand : Derives .factor ts) : Derives .factor (t :: ts)
  | number {t : Token} (number : t.kind = .number) : Derives .factor [t]
  | quantity {t u : Token} (number : t.kind = .number) (unit : IsUnitOf t u) : Derives .factor [t, u]
  | group {l r : Token} {ts : List Token} (left : l.kind = .lparen)
      (inner : Derives (.expr .ignored) ts) (right : r.kind = .rparen) :
      Derives .factor (l :: ts ++ [r])
  | matrix {l r : Token} {ts : List Token} (left : l.kind = .lbracket) (inner : Derives .rows ts)
      (right : r.kind = .rbracket) : Derives .factor (l :: ts ++ [r])
  | truth {t : Token} (word : t.kind = .reservedValue) : Derives .factor [t]
  | name {t : Token} (name : t.kind = .identifier) : Derives .factor [t]
  | call {f l r : Token} {ts : List Token} (name : f.kind = .identifier) (left : l.kind = .lparen)
      (args : Derives .arguments ts) (right : r.kind = .rparen) :
      Derives .factor (f :: l :: ts ++ [r])
  | definition {f l r e : Token} {ts us : List Token} (name : f.kind = .identifier)
      (left : l.kind = .lparen) (args : Derives .arguments ts) (right : r.kind = .rparen)
      (defines : e.kind = .assign ∨ e.kind = .fatArrow) (body : Derives .body us) :
      Derives .factor (f :: l :: ts ++ [r] ++ e :: us)
  | noArguments : Derives .arguments []
  | someArguments {ts : List Token} (args : Derives .argumentList ts) : Derives .arguments ts
  | argument {ts : List Token} (arg : Derives (.expr .ignored) ts) : Derives .argumentList ts
  | moreArguments {c : Token} {ts us : List Token} (arg : Derives (.expr .ignored) ts)
      (comma : c.kind = .comma) (rest : Derives .argumentList us) :
      Derives .argumentList (ts ++ c :: us)
  | block {l r : Token} {ts : List Token} (left : l.kind = .lbrace) (inner : Derives .statements ts)
      (right : r.kind = .rbrace) : Derives .body (l :: ts ++ [r])
  | value {ts : List Token} (value : Derives (.expr .ignored) ts) : Derives .body ts
  | row {ts : List Token} (row : Derives .row ts) : Derives .rows ts
  | lastRow {s : Token} {ts : List Token} (row : Derives .row ts) (ends : s.kind = .semicolon) :
      Derives .rows (ts ++ [s])
  | moreRows {s : Token} {ts us : List Token} (row : Derives .row ts) (ends : s.kind = .semicolon)
      (rest : Derives .rows us) : Derives .rows (ts ++ s :: us)
  | element {ts : List Token} (element : Derives (.expr .matters) ts) : Derives .row ts
  | nextElement {ts us : List Token} (element : Derives (.expr .matters) ts)
      (rest : Derives .row us) : Derives .row (ts ++ us)
  | commaElement {c : Token} {ts us : List Token} (element : Derives (.expr .matters) ts)
      (comma : c.kind = .comma) (rest : Derives .row us) : Derives .row (ts ++ c :: us)
  -- Expressions
  | operand {spacing : Parser.Spacing} {ts : List Token} (factor : Derives .factor ts) :
      Derives (.layer spacing 0) ts
  | tighter {spacing : Parser.Spacing} {level : Nat} {ts : List Token}
      (tighter : Derives (.layer spacing level) ts) : Derives (.layer spacing (level + 1)) ts
  | operation {spacing : Parser.Spacing} {level : Nat} {t : Token} {op : BinaryOp}
      {ts us : List Token} (left : Derives (.layer spacing (level + 1)) ts)
      (operator : Parser.operatorAt? spacing level t = some op)
      (right : Derives (.layer spacing level) us) : Derives (.layer spacing (level + 1)) (ts ++ t :: us)
  | operations {spacing : Parser.Spacing} {ts : List Token}
      (operations : Derives (.layer spacing BinaryOp.levels) ts) : Derives (.expr spacing) ts
  | conditional {spacing : Parser.Spacing} {q c : Token} {ts us vs : List Token}
      (condition : Derives (.layer spacing BinaryOp.levels) ts) (question : q.kind = .question)
      (yes : Derives (.expr spacing) us) (colon : c.kind = .colon) (no : Derives (.expr spacing) vs) :
      Derives (.expr spacing) (ts ++ q :: us ++ c :: vs)
  -- Statements
  | assignment {x e : Token} {ts : List Token} (target : x.kind = .identifier)
      (assigns : (assignment? e.kind).isSome = true) (value : Derives (.expr .ignored) ts) :
      Derives .assignments (x :: e :: ts)
  | moreAssignments {x e c : Token} {ts us : List Token} (target : x.kind = .identifier)
      (assigns : (assignment? e.kind).isSome = true) (value : Derives (.expr .ignored) ts)
      (comma : c.kind = .comma) (rest : Derives .assignments us) :
      Derives .assignments (x :: e :: ts ++ c :: us)
  | nothing : Derives .statement []
  | assigns {ts : List Token} (assignments : Derives .assignments ts) : Derives .statement ts
  | expression {ts : List Token} (expr : Derives (.expr .ignored) ts) : Derives .statement ts
  | blankLine {l : Token} {ts : List Token} (newline : l.kind = .newline)
      (rest : Derives .statements ts) : Derives .statements (l :: ts)
  | lastLine {ts : List Token} (line : Derives .statement ts) : Derives .statements ts
  | line {l : Token} {ts us : List Token} (line : Derives .statement ts) (newline : l.kind = .newline)
      (rest : Derives .statements us) : Derives .statements (ts ++ l :: us)
  | program {e : Token} {ts : List Token} (statements : Derives .statements ts) (ends : e.kind = .eof) :
      Derives .program (ts ++ [e])

variable {φ : Category} {ts us : List Token}

theorem Derives.blankLines (hts : ∀ t ∈ ts, t.kind = .newline) (hus : Derives .statements us) :
    Derives .statements (ts ++ us) := by
  induction ts with
  | nil => exact hus
  | cons t ts ih =>
    obtain ⟨ht, hts⟩ := List.forall_mem_cons.1 hts
    exact .blankLine ht (ih hts)

/-! ## What can stand before a closing parenthesis -/

/-- The categories that the empty sequence is of. -/
def Category.nullable : Category → Bool
  | statements | statement | arguments => true
  | _ => false

theorem Derives.ne_nil (h : Derives φ ts) (hφ : φ.nullable = false) : ts ≠ [] := by
  induction h with
  | noArguments | someArguments | nothing | assigns | expression | blankLine | lastLine | line =>
    cases hφ
  | argument _ ih | value _ ih | row _ ih | element _ ih | operand _ ih | tighter _ ih
  | operations _ ih => exact ih rfl
  | nextElement _ _ ih _ => exact List.append_ne_nil_of_left_ne_nil (ih rfl) _
  | _ => simp

/-- The first token is no comma before a closing parenthesis. -/
def NoTrailingComma (t u : Token) : Prop :=
  ¬ (t.kind = .comma ∧ u.kind = .rparen)

instance (t u : Token) : Decidable (NoTrailingComma t u) :=
  inferInstanceAs (Decidable (¬ _))

/-- No comma stands right before a closing parenthesis, and none can come to stand there if such
sequences are put together. -/
structure Tidy (ts : List Token) : Prop where
  chain : ts.IsChain NoTrailingComma
  head : ∀ t ∈ ts.head?, t.kind ≠ .rparen
  last : ∀ t ∈ ts.getLast?, t.kind ≠ .comma

namespace Tidy

variable {t : Token}

theorem nil : Tidy [] :=
  ⟨.nil, by simp, by simp⟩

theorem single (hr : t.kind ≠ .rparen) (hc : t.kind ≠ .comma) : Tidy [t] := by
  refine ⟨.singleton t, fun u hu => ?_, fun u hu => ?_⟩
  · cases hu
    exact hr
  · cases hu
    exact hc

theorem append (hts : Tidy ts) (hus : Tidy us) : Tidy (ts ++ us) := by
  refine ⟨?_, fun t ht => ?_, fun t ht => ?_⟩
  · refine List.isChain_append.2 ⟨hts.chain, hus.chain, fun t ht u _ h => ?_⟩
    exact hts.last t ht h.1
  · rw [List.head?_append] at ht
    cases hhead : ts.head? with
    | none =>
      rw [hhead] at ht
      exact hus.head t ht
    | some u =>
      rw [hhead] at ht
      exact hts.head t (hhead ▸ ht)
  · rw [List.getLast?_append] at ht
    cases hlast : us.getLast? with
    | none =>
      rw [hlast] at ht
      exact hts.last t ht
    | some u =>
      rw [hlast] at ht
      exact hus.last t (hlast ▸ ht)

theorem cons (hr : t.kind ≠ .rparen) (hc : t.kind ≠ .comma) (h : Tidy ts) : Tidy (t :: ts) :=
  (single hr hc).append h

/-- A comma needs something behind it. -/
theorem comma (hc : t.kind = .comma) (hts : Tidy ts) (hus : Tidy us) (hne : us ≠ []) :
    Tidy (ts ++ t :: us) := by
  refine hts.append ⟨?_, fun u hu => ?_, fun u hu => ?_⟩
  · exact List.isChain_cons.2 ⟨fun u hu h => hus.head u hu h.2, hus.chain⟩
  · cases hu
    rw [hc]
    decide
  · rw [List.getLast?_cons_of_ne_nil hne] at hu
    exact hus.last u hu

/-- A closing parenthesis needs something before it. -/
theorem close (hr : t.kind = .rparen) (hts : Tidy ts) (hne : ts ≠ []) : Tidy (ts ++ [t]) := by
  refine ⟨?_, fun u hu => ?_, fun u hu => ?_⟩
  · exact List.isChain_append.2 ⟨hts.chain, .singleton t, fun u hu _ _ h => hts.last u hu h.1⟩
  · rw [List.head?_append_of_ne_nil _ hne] at hu
    exact hts.head u hu
  · rw [List.getLast?_concat] at hu
    cases hu
    rw [hr]
    decide

/-- A token of a kind that is neither of the two. -/
theorem cons_of_kind {k : Token.Kind} (hk : t.kind = k)
    (hneither : (k != .rparen && k != .comma) = true) (h : Tidy ts) : Tidy (t :: ts) := by
  rw [Bool.and_eq_true, bne_iff_ne, bne_iff_ne] at hneither
  exact cons (hk ▸ hneither.1) (hk ▸ hneither.2) h

/-- A token that means something which neither of the two does. -/
theorem cons_of_isSome {α : Type} {f : Token.Kind → Option α} (hf : (f t.kind).isSome = true)
    (hr : f .rparen = none) (hc : f .comma = none) (h : Tidy ts) : Tidy (t :: ts) := by
  refine cons (fun hk => ?_) (fun hk => ?_) h
  · rw [hk, hr] at hf
    cases hf
  · rw [hk, hc] at hf
    cases hf

end Tidy

theorem isSome_of_operatorAt? {spacing : Parser.Spacing} {level : Nat} {t : Token} {op : BinaryOp}
    (h : Parser.operatorAt? spacing level t = some op) : (BinaryOp.ofKind? t.kind).isSome = true := by
  unfold Parser.operatorAt? at h
  rw [Option.filter_eq_some_iff] at h
  rw [h.1]
  rfl

theorem Derives.tidy (h : Derives φ ts) : Tidy ts := by
  induction h with
  | sign hsign _ ih => exact .cons_of_isSome (Option.isSome_iff_exists.2 ⟨_, hsign⟩) rfl rfl ih
  | number hk | truth hk | name hk => exact .cons_of_kind hk rfl .nil
  | quantity hk hunit => exact .cons_of_kind hk rfl (.cons_of_kind hunit.kind rfl .nil)
  | group hl _ hr ih => exact (Tidy.cons_of_kind hl rfl ih).close hr (by simp)
  | matrix hl _ hr ih | block hl _ hr ih =>
    exact (Tidy.cons_of_kind hl rfl ih).append (.cons_of_kind hr rfl .nil)
  | call hf hl _ hr ih => exact (Tidy.cons_of_kind hf rfl (.cons_of_kind hl rfl ih)).close hr (by simp)
  | definition hf hl _ hr he _ ih ih' =>
    refine ((Tidy.cons_of_kind hf rfl (.cons_of_kind hl rfl ih)).close hr (by simp)).append ?_
    rcases he with he | he
    · exact .cons_of_kind he rfl ih'
    · exact .cons_of_kind he rfl ih'
  | noArguments | nothing => exact .nil
  | someArguments _ ih | argument _ ih | value _ ih | row _ ih | element _ ih | operand _ ih
  | tighter _ ih | operations _ ih | assigns _ ih | expression _ ih | lastLine _ ih => exact ih
  | moreArguments _ hc hrest ih ih' => exact ih.comma hc ih' (hrest.ne_nil rfl)
  | commaElement _ hc hrest ih ih' => exact ih.comma hc ih' (hrest.ne_nil rfl)
  | moreAssignments hx he _ hc hrest ih ih' =>
    exact (Tidy.cons_of_kind hx rfl (.cons_of_isSome he rfl rfl ih)).comma hc ih' (hrest.ne_nil rfl)
  | lastRow _ hs ih => exact ih.append (.cons_of_kind hs rfl .nil)
  | moreRows _ hs _ ih ih' => exact ih.append (.cons_of_kind hs rfl ih')
  | nextElement _ _ ih ih' => exact ih.append ih'
  | operation _ hop _ ih ih' => exact ih.append (.cons_of_isSome (isSome_of_operatorAt? hop) rfl rfl ih')
  | conditional _ hq _ hc _ ih ih' ih'' =>
    exact (ih.append (.cons_of_kind hq rfl ih')).append (.cons_of_kind hc rfl ih'')
  | assignment hx he _ ih => exact .cons_of_kind hx rfl (.cons_of_isSome he rfl rfl ih)
  | blankLine hl _ ih => exact .cons_of_kind hl rfl ih
  | line _ hl _ ih ih' => exact ih.append (.cons_of_kind hl rfl ih')
  | program _ he ih => exact ih.append (.cons_of_kind he rfl .nil)

end Reckon.Grammar
