import Reckon.Proofs.Parsing.Position
import Reckon.Proofs.Syntax.Contents

/-!
# What is read between two positions

Between the position where a parser starts and the one where it stops stand tokens, and nodes are made of them
(`Reading`).  There is a way to read for each kind of node: a token is a number, a truth value or a name; a sign
stands before an operand; operands and arguments follow one another, with operators, separators and parentheses
in between.  Which of these stand where is not said here, only what the nodes have from the tokens: their
literals and names, and their spans.

What holds of all trees that a parser gives is seen from the ways to read them, by induction on these.  Nodes
read from somewhere start with a token there (`Reading.starts`).  So do the nodes that they contain, each of which
was itself read on the way (`Reading.contains`).
-/

namespace Reckon

/-- The text, the line and the column where the span starts. -/
def Span.start (s : Span) : String × Int × Int :=
  (s.file, s.startLine, s.startCol)

/-- The token is a sign or a word of the language: neither a number nor a name, nor the end of input. -/
abbrev Token.Kind.Fixed (k : Token.Kind) : Prop :=
  k ≠ .eof ∧ k ≠ .number ∧ k ≠ .identifier

theorem BinaryOp.fixed_of_ofKind? {k : Token.Kind} {op : BinaryOp} (h : ofKind? k = some op) : k.Fixed := by
  refine ⟨?_, ?_, ?_⟩ <;> rintro rfl <;> cases h

theorem UnaryOp.fixed_of_ofKind? {k : Token.Kind} {op : UnaryOp} (h : ofKind? k = some op) : k.Fixed := by
  refine ⟨?_, ?_, ?_⟩ <;> rintro rfl <;> cases h

/-- The unit that the second token is for the first one. -/
def Token.unit? (t u : Token) : Option LengthUnit :=
  if u.kind = .identifier ∧ u.span.startLine = t.span.endLine ∧ u.span.startCol = t.span.endCol + 1 then
    LengthUnit.ofSymbol? u.text
  else none

/-! ## Past tokens -/

namespace Ahead

variable {a b c : Ahead} {k : Token.Kind}

/-- The first token is of this kind, and behind it is the second position. -/
structure Passes (k : Token.Kind) (a b : Ahead) : Prop where
  kind : a.current.kind = k
  next : a.advance = .ok b

/-- The second position is behind the first one: a token at least was taken, if the tokens end well. -/
structure Past (a b : Ahead) : Prop where
  reaches : a.Reaches b
  left_lt : a.Closed → b.left < a.left

theorem Past.of_advance (hk : a.current.kind ≠ .eof) (h : a.advance = .ok b) : a.Past b :=
  ⟨.single h, fun hc => hc.left_lt hk h⟩

theorem Passes.past (h : Passes k a b) (hk : k ≠ .eof) : a.Past b :=
  .of_advance (h.kind ▸ hk) h.next

theorem Past.reach (h : a.Past b) (hr : b.Reaches c) : a.Past c :=
  ⟨h.reaches.trans hr, fun hc => Nat.lt_of_le_of_lt (hr.left_le (h.reaches.closed hc)) (h.left_lt hc)⟩

theorem Reaches.past (hr : a.Reaches b) (h : b.Past c) : a.Past c :=
  ⟨hr.trans h.reaches, fun hc => Nat.lt_of_lt_of_le (h.left_lt (hr.closed hc)) (hr.left_le hc)⟩

end Ahead

/-! ## Ways to read -/

/-- What can be read. -/
inductive Portion where
  /-- Nodes one behind the other, and assignments among them only if this is so. -/
  | nodes (assignments : Bool)
  /-- The body of a definition. -/
  | body
  /-- The name and the arguments of a call, with this span. -/
  | head (span : Option Span)

/-- These nodes are read between the two positions. -/
inductive Reading : Portion → Ahead → List Node → Ahead → Prop where
  -- One behind the other
  | nil {s : Bool} (a : Ahead) : Reading (.nodes s) a [] a
  | append {s : Bool} {a b c : Ahead} {xs ys : List Node} (first : Reading (.nodes s) a xs b)
      (rest : Reading (.nodes s) b ys c) : Reading (.nodes s) a (xs ++ ys) c
  | sign {s : Bool} {k : Token.Kind} {a b : Ahead} (sign : a.Passes k b) (fixed : k.Fixed) :
      Reading (.nodes s) a [] b
  -- Operands
  | number {a b : Ahead} (number : a.Passes .number b) (alone : a.current.unit? b.current = none) :
      Reading (.nodes false) a
        [.literal (.number a.current.value none) (some (a.current.span.upTo a.current.span))] b
  | quantity {a b c : Ahead} {unit : LengthUnit} (number : a.Passes .number b)
      (touches : a.current.unit? b.current = some unit) (next : b.Passes .identifier c) :
      Reading (.nodes false) a
        [.literal (.number a.current.value (some unit)) (some (a.current.span.upTo b.current.span))] c
  | truth {a b : Ahead} (word : a.Passes .reservedValue b) :
      Reading (.nodes false) a [.literal (.boolean (a.current.text == "true")) (some a.current.span)] b
  | name {a b : Ahead} (name : a.Passes .identifier b) :
      Reading (.nodes false) a [.var a.current.text (some a.current.span)] b
  | matrix {a b c d : Ahead} {rows : List (List Node)} {width : Nat} (opens : a.Passes .lbracket b)
      (cells : Reading (.nodes false) b rows.flatten c) (closes : c.Passes .rbracket d) (nonempty : rows ≠ [])
      (wide : 0 < width) (even : ∀ row ∈ rows, row.length = width) :
      Reading (.nodes false) a [.matrix rows (some (a.current.span.upTo c.current.span))] d
  | head {a b c d e : Ahead} {args : List Node} (name : a.Passes .identifier b) (opens : b.Passes .lparen c)
      (inner : Reading (.nodes false) c args d) (closes : d.Passes .rparen e) :
      Reading (.head (some (a.current.span.upTo d.current.span))) a args e
  | call {a b : Ahead} {args : List Node} {span : Option Span} (head : Reading (.head span) a args b) :
      Reading (.nodes false) a [.call a.current.text args span] b
  | define {k : Token.Kind} {a b c d : Ahead} {params : List Identifier} {span : Option Span} {children : List Node}
      {bodySpan : Option Span} (head : Reading (.head span) a (params.map Identifier.asVar) b)
      (distinct : (params.map Identifier.name).Nodup) (sign : b.Passes k c) (fixed : k.Fixed)
      (body : Reading .body c [.block children bodySpan] d) :
      Reading (.nodes false) a
        [.define a.current.text params children bodySpan (Span.join span bodySpan)] d
  -- Operators
  | unary {a b c : Ahead} {op : UnaryOp} {x : Node} (kind : UnaryOp.ofKind? a.current.kind = some op)
      (next : a.advance = .ok b) (operand : Reading (.nodes false) b [x] c) :
      Reading (.nodes false) a [.unary op x (Span.join (some a.current.span) x.span)] c
  | binary {a b : Ahead} {l r : Node} (op : BinaryOp) (operands : Reading (.nodes false) a [l, r] b) :
      Reading (.nodes false) a [.binary l op r (Span.join l.span r.span)] b
  | ternary {a b : Ahead} {c y n : Node} (operands : Reading (.nodes false) a [c, y, n] b) :
      Reading (.nodes false) a [.ternary c y n (Span.join c.span n.span)] b
  -- Bodies
  | braces {a b c d : Ahead} {xs : List Node} (opens : a.Passes .lbrace b)
      (lines : Reading (.nodes true) b xs c) (closes : c.Passes .rbrace d) :
      Reading .body a [.block xs (some (a.current.span.upTo c.current.span))] d
  | value {a b : Ahead} {x : Node} (operand : Reading (.nodes false) a [x] b) :
      Reading .body a [.block [x] x.span] b
  -- Statements
  | line {a b : Ahead} {xs : List Node} (operands : Reading (.nodes false) a xs b) :
      Reading (.nodes true) a xs b
  | assign {a b : Ahead} {target : Identifier} {x : Node}
      (operands : Reading (.nodes false) a [target.asVar, x] b) :
      Reading (.nodes true) a [.assign target x (Span.join target.span x.span)] b
  | apply {a b : Ahead} {target : Identifier} {x : Node} (op : BinaryOp)
      (operands : Reading (.nodes false) a [target.asVar, x] b) :
      Reading (.nodes true) a
        [.assign target (.binary target.asVar op x (Span.join target.span x.span))
          (Span.join target.span x.span)] b

namespace Reading

variable {p : Portion} {s : Bool} {a b : Ahead} {xs : List Node} {x e : Node}

theorem reaches (h : Reading p a xs b) : a.Reaches b := by
  induction h with
  | nil => exact .refl _
  | append _ _ ih ih' => exact ih.trans ih'
  | sign sign _ => exact .single sign.next
  | number number => exact .single number.next
  | quantity number _ next => exact .head number.next (.single next.next)
  | truth word => exact .single word.next
  | name name => exact .single name.next
  | matrix opens _ closes _ _ _ ih => exact .head opens.next (ih.tail closes.next)
  | head name opens _ closes ih => exact .head name.next (.head opens.next (ih.tail closes.next))
  | call _ ih => exact ih
  | define _ _ sign _ _ ih ih' => exact ih.trans (.head sign.next ih')
  | unary _ next _ ih => exact .head next ih
  | binary _ _ ih => exact ih
  | ternary _ ih => exact ih
  | braces opens _ closes ih => exact .head opens.next (ih.tail closes.next)
  | value _ ih => exact ih
  | line _ ih => exact ih
  | assign _ ih => exact ih
  | apply _ _ ih => exact ih

/-- Only where no nodes are read no token need be taken. -/
theorem past (h : Reading p a xs b) (hp : ∀ s, p = .nodes s → xs ≠ []) : a.Past b := by
  induction h with
  | nil => exact absurd rfl (hp _ rfl)
  | @append s a b c xs ys first rest ih ih' =>
    cases xs with
    | nil => exact first.reaches.past (ih' fun _ _ => hp s rfl)
    | cons x xs => exact (ih fun _ _ => List.cons_ne_nil x xs).reach rest.reaches
  | sign => exact absurd rfl (hp _ rfl)
  | number number => exact number.past (by decide)
  | quantity number _ next => exact (number.past (by decide)).reach (.single next.next)
  | truth word => exact word.past (by decide)
  | name name => exact name.past (by decide)
  | matrix opens cells closes => exact (opens.past (by decide)).reach (cells.reaches.tail closes.next)
  | head name opens inner closes =>
    exact (name.past (by decide)).reach (.head opens.next (inner.reaches.tail closes.next))
  | call _ ih => exact ih nofun
  | define _ _ sign _ body ih => exact (ih nofun).reach (.head sign.next body.reaches)
  | unary kind next operand =>
    exact (Ahead.Past.of_advance (UnaryOp.fixed_of_ofKind? kind).1 next).reach operand.reaches
  | binary _ _ ih => exact ih fun _ _ => List.cons_ne_nil _ _
  | ternary _ ih => exact ih fun _ _ => List.cons_ne_nil _ _
  | braces opens lines closes => exact (opens.past (by decide)).reach (lines.reaches.tail closes.next)
  | value _ ih => exact ih fun _ _ => List.cons_ne_nil _ _
  | line _ ih => exact ih fun _ _ => hp _ rfl
  | assign _ ih => exact ih fun _ _ => List.cons_ne_nil _ _
  | apply _ _ ih => exact ih fun _ _ => List.cons_ne_nil _ _

theorem past_singleton (h : Reading p a [x] b) : a.Past b :=
  h.past fun _ _ => List.cons_ne_nil x []

/-- What is read is there. -/
theorem isEmpty_eq_false (h : Reading p a xs b) : ∀ x ∈ xs, x.isEmpty = false := by
  induction h with
  | nil | sign => exact fun _ hx => absurd hx List.not_mem_nil
  | append _ _ ih ih' => exact List.forall_mem_append.2 ⟨ih, ih'⟩
  | head _ _ _ _ ih => exact ih
  | line _ ih => exact ih
  | _ => exact List.forall_mem_singleton.2 rfl

end Reading

/-! ## Spans and contents -/

/-- A token ahead starts there. -/
def Ahead.Has (o : Ahead) (place : String × Int × Int) : Prop :=
  ∃ a, o.Reaches a ∧ place = a.current.span.start

/-- The place is known, and it starts where `P` says. -/
def Known (P : String × Int × Int → Prop) (place : Option Span) : Prop :=
  ∃ s, place = some s ∧ P s.start

namespace Known

variable {P Q : String × Int × Int → Prop} {place : Option Span}

theorem of_start {s : Span} (h : P s.start) : Known P (some s) :=
  ⟨s, rfl, h⟩

theorem mono (h : Known P place) (hPQ : ∀ place, P place → Q place) : Known Q place := by
  obtain ⟨s, rfl, hs⟩ := h
  exact ⟨s, rfl, hPQ s.start hs⟩

/-- Joining two spans keeps where the first one starts. -/
theorem join (h : Known P place) (other : Option Span) : Known P (Span.join place other) := by
  obtain ⟨s, rfl, hs⟩ := h
  cases other with
  | none => exact ⟨s, rfl, hs⟩
  | some t => exact ⟨s.upTo t, rfl, hs⟩

theorem isSome (h : Known P place) : place.isSome = true := by
  obtain ⟨s, rfl, -⟩ := h
  rfl

/-- A span that starts with the current token. -/
theorem of_current (a : Ahead) {s : Span} (h : s.start = a.current.span.start) : Known a.Has (some s) :=
  ⟨s, rfl, a, .refl a, h⟩

theorem reach {a b : Ahead} (h : Known b.Has place) (hr : a.Reaches b) : Known a.Has place :=
  h.mono fun _ ⟨c, hc, hplace⟩ => ⟨c, hr.trans hc, hplace⟩

end Known

/-- The node was read, from a position that can be reached from this one. -/
def ReadFrom (o : Ahead) (e : Node) : Prop :=
  ∃ p a b, o.Reaches a ∧ Reading p a [e] b

theorem ReadFrom.reach {a b : Ahead} {e : Node} (h : ReadFrom b e) (hr : a.Reaches b) : ReadFrom a e := by
  obtain ⟨p, c, d, hc, he⟩ := h
  exact ⟨p, c, d, hr.trans hc, he⟩

namespace Reading

variable {p : Portion} {a b : Ahead} {xs : List Node} {n e : Node} {span : Option Span}

theorem head_start (h : Reading (.head span) a xs b) : Known a.Has span := by
  cases h with
  | head => exact .of_current a rfl

/-- Nodes start with tokens. -/
theorem starts (h : Reading p a xs b) : ∀ x ∈ xs, Known a.Has x.span := by
  induction h with
  | nil | sign => exact fun _ hx => absurd hx List.not_mem_nil
  | append first _ ih ih' =>
    exact List.forall_mem_append.2 ⟨ih, fun x hx => (ih' x hx).reach first.reaches⟩
  | number | quantity | truth | name | matrix | braces => exact List.forall_mem_singleton.2 (.of_current _ rfl)
  | head name opens _ _ ih => exact fun x hx => (ih x hx).reach (.head name.next (.single opens.next))
  | call head => exact List.forall_mem_singleton.2 head.head_start
  | define head => exact List.forall_mem_singleton.2 (head.head_start.join _)
  | unary => exact List.forall_mem_singleton.2 (.join (.of_current _ rfl) _)
  | binary _ _ ih | ternary _ ih | assign _ ih | apply _ _ ih =>
    exact List.forall_mem_singleton.2 ((ih _ List.mem_cons_self).join _)
  | @value a b x _ ih => exact List.forall_mem_singleton.2 (ih x List.mem_cons_self)
  | line _ ih => exact ih

/-- A node that is read contains itself and what its components contain. -/
theorem contains_of_components (hn : Reading p a [n] b)
    (h : ∀ c ∈ n.components, ∀ e, c.Contains e → ReadFrom a e) :
    ∀ x ∈ [n], ∀ e, x.Contains e → ReadFrom a e := by
  refine List.forall_mem_singleton.2 fun e he => ?_
  rcases he.cases_head with rfl | ⟨c, hc, hce⟩
  · exact ⟨p, a, b, .refl a, hn⟩
  · exact h c hc e hce

/-- **All that nodes contain was read on the way.** -/
theorem contains (h : Reading p a xs b) : ∀ x ∈ xs, ∀ e, x.Contains e → ReadFrom a e := by
  induction h with
  | nil | sign => exact fun _ hx => absurd hx List.not_mem_nil
  | append first _ ih ih' =>
    exact List.forall_mem_append.2 ⟨ih, fun x hx e he => (ih' x hx e he).reach first.reaches⟩
  | number number alone => exact contains_of_components (.number number alone) nofun
  | quantity number touches next => exact contains_of_components (.quantity number touches next) nofun
  | truth word => exact contains_of_components (.truth word) nofun
  | name name => exact contains_of_components (.name name) nofun
  | matrix opens cells closes nonempty wide even ih =>
    refine contains_of_components (.matrix opens cells closes nonempty wide even) fun c hc e he => ?_
    exact (ih c hc e he).reach (.single opens.next)
  | head name opens _ _ ih => exact fun x hx e he => (ih x hx e he).reach (.head name.next (.single opens.next))
  | call head ih => exact contains_of_components (.call head) ih
  | define head distinct sign fixed body ih ih' =>
    refine contains_of_components (.define head distinct sign fixed body) ?_
    exact List.forall_mem_append.2
      ⟨ih, fun x hx e he => (ih' x hx e he).reach (head.reaches.tail sign.next)⟩
  | unary kind next operand ih =>
    refine contains_of_components (.unary kind next operand) fun c hc e he => ?_
    exact (ih c hc e he).reach (.single next)
  | binary op operands ih => exact contains_of_components (.binary op operands) ih
  | ternary operands ih => exact contains_of_components (.ternary operands) ih
  | braces opens lines closes ih =>
    refine contains_of_components (.braces opens lines closes) fun c hc e he => ?_
    exact (ih c hc e he).reach (.single opens.next)
  | value operand ih => exact contains_of_components (.value operand) ih
  | line _ ih => exact ih
  | assign operands ih => exact contains_of_components (.assign operands) ih
  | apply op operands ih =>
    -- The target is read once, and the operator with it.
    refine contains_of_components (.apply op operands) (List.forall_mem_cons.2 ⟨ih _ List.mem_cons_self, ?_⟩)
    exact contains_of_components (.binary op operands) ih

/-- A block of nodes contains itself besides. -/
theorem block_contains (h : Reading p a xs b) (he : (Node.block xs span).Contains e) :
    e = .block xs span ∨ ReadFrom a e := by
  rcases he.cases_head with heq | ⟨c, hc, hce⟩
  · exact .inl heq.symm
  · exact .inr (h.contains c hc e hce)

end Reading

end Reckon
