import Reckon.Proofs.Parsing.OnDemand
import Reckon.Proofs.Parsing.Taken

/-!
# Numbers and names are accounted for

The number literals of a tree stand in it in the order in which their numerals were read (`Node.numerals`).
Each numeral becomes one literal, with the unit that stands right behind it, if there is one (`Token.literal`),
and no other token becomes one.  A name that is not such a unit is found in the tree again, where a node of this
name starts (`Node.Mentions`).  So nodes account for the tokens that they were read from, whatever the way to read
them (`Reading.accounts`).
-/

namespace Reckon

/-- What is joined starts where its first part starts. -/
theorem Span.start_join {s : Option Span} {place : String × Int × Int} (h : s.map start = some place)
    (t : Option Span) : (join s t).map start = some place := by
  cases s with
  | none => cases h
  | some s => cases t <;> exact h

/-! ## Literals and names of trees -/

namespace Node

mutual

/-- The number literals of a tree, from left to right. -/
def numerals : Node → List Node
  | empty _ | var _ _ | literal (.boolean _) _ | literal (.matrix _) _ => []
  | literal (.number x unit) s => [literal (.number x unit) s]
  | unary _ e _ => e.numerals
  | binary l _ r _ => l.numerals ++ r.numerals
  | ternary c y n _ => c.numerals ++ (y.numerals ++ n.numerals)
  | matrix rows _ => numeralsRows rows
  | call _ args _ => numeralsList args
  | assign _ e _ => e.numerals
  | block children _ => numeralsList children
  | define _ _ statements _ _ => numeralsList statements

/-- The number literals of trees. -/
def numeralsList : List Node → List Node
  | [] => []
  | n :: rest => n.numerals ++ numeralsList rest

/-- The number literals of rows of trees. -/
def numeralsRows : List (List Node) → List Node
  | [] => []
  | row :: rest => numeralsList row ++ numeralsRows rest

end

@[simp]
theorem numeralsList_eq_flatMap (ns : List Node) : numeralsList ns = ns.flatMap numerals := by
  induction ns with
  | nil => rfl
  | cons n rest ih => rw [numeralsList, ih, List.flatMap_cons]

@[simp]
theorem numeralsRows_eq_flatMap (rows : List (List Node)) :
    numeralsRows rows = rows.flatten.flatMap numerals := by
  induction rows with
  | nil => rfl
  | cons row rest ih =>
    rw [numeralsRows, ih, numeralsList_eq_flatMap, List.flatten_cons, List.flatMap_append]

theorem numerals_asVar (is : List Identifier) : (is.map Identifier.asVar).flatMap numerals = [] := by
  induction is with
  | nil => rfl
  | cons i rest ih =>
    rw [List.map_cons, List.flatMap_cons, ih]
    rfl

/-- The literals of a node are those of what it consists of. -/
theorem numerals_eq {n : Node} (h : n.isLiteral = false) : n.numerals = n.components.flatMap numerals := by
  cases n with
  | literal v s => cases h
  | empty | var => rfl
  | define f ps statements bodySpan s =>
    rw [components, List.flatMap_append, numerals_asVar]
    simp [numerals]
  | assign target e s =>
    show e.numerals = [] ++ (e.numerals ++ [])
    simp
  | _ => simp [numerals, components]

/-- The node is called like the token, and starts with it. -/
def NamedBy (n : Node) (u : Token) : Prop :=
  match n with
  | var x s | call x _ s | define x _ _ _ s => x = u.text ∧ s.map Span.start = some u.span.start
  | _ => False

/-- Somewhere in the tree a node is called like the token, and starts with it. -/
def Mentions (n : Node) (u : Token) : Prop :=
  ∃ e, n.Contains e ∧ e.NamedBy u

variable {n c : Node} {u : Token}

theorem Mentions.of_component (h : c.Mentions u) (hc : c ∈ n.components) : n.Mentions u := by
  obtain ⟨e, he, hnamed⟩ := h
  exact ⟨e, .head hc he, hnamed⟩

end Node

/-! ## Literals of tokens -/

namespace Token

/-- The literal that a number is read as, with this token behind it. -/
def literal (t u : Token) : Node :=
  match t.unit? u with
  | some unit => .literal (.number t.value (some unit)) (some (t.span.upTo u.span))
  | none => .literal (.number t.value none) (some t.span)

/-- The literals that numbers are read as; the last token only stands behind the others. -/
def numerals : List Token → List Node
  | t :: u :: ts => if t.kind = .number then t.literal u :: numerals (u :: ts) else numerals (u :: ts)
  | _ => []

theorem numerals_append (ts us : List Token) (v : Token) :
    numerals (ts ++ v :: us) = numerals (ts ++ [v]) ++ numerals (v :: us) := by
  induction ts with
  | nil => rfl
  | cons t ts ih =>
    obtain ⟨w, rest, hrest⟩ : ∃ w rest, ts ++ [v] = w :: rest := List.exists_cons_of_ne_nil (by simp)
    have hmore : ts ++ v :: us = w :: (rest ++ us) := by
      rw [← List.cons_append, ← hrest, List.append_assoc]
      rfl
    rw [List.cons_append, List.cons_append, hmore, hrest, numerals, numerals, ← hmore, ← hrest, ih]
    split <;> rfl

/-- Tokens that are no numbers are not read as any. -/
theorem numerals_pair {t v : Token} (h : t.kind ≠ .number) : numerals [t, v] = [] :=
  if_neg h

end Token

/-! ## Accounts -/

/-- The nodes account for the tokens from the one position to the other: their literals are those of the
numbers among these tokens, and every name among them is the unit of a number or mentioned by a node. -/
def Accounted (a : Ahead) (ns : List Node) (b : Ahead) : Prop :=
  ∃ ts, a.Takes ts b ∧ ns.flatMap Node.numerals = Token.numerals (ts ++ [b.current]) ∧
    ∀ u ∈ ts, u.kind = .identifier →
      (∃ t ∈ ts, t.kind = .number ∧ (t.unit? u).isSome = true) ∨ ∃ n ∈ ns, n.Mentions u

theorem Ahead.Takes.exists_head {a b : Ahead} {ts : List Token} (h : a.Takes ts b) :
    ∃ us, ts ++ [b.current] = a.current :: us := by
  cases h with
  | refl => exact ⟨[], rfl⟩
  | cons => exact ⟨_, rfl⟩

namespace Accounted

variable {a b c : Ahead} {n e : Node} {ns ms : List Node}

theorem refl (a : Ahead) : Accounted a [] a :=
  ⟨[], .refl a, rfl, fun _ hu => absurd hu List.not_mem_nil⟩

theorem append (h : Accounted a ns b) (h' : Accounted b ms c) : Accounted a (ns ++ ms) c := by
  obtain ⟨ts, hts, hnumerals, hnames⟩ := h
  obtain ⟨us, hus, hnumerals', hnames'⟩ := h'
  refine ⟨ts ++ us, hts.trans hus, ?_, fun u hu hk => ?_⟩
  · obtain ⟨vs, hvs⟩ := hus.exists_head
    rw [List.flatMap_append, hnumerals, hnumerals', List.append_assoc, hvs]
    exact (Token.numerals_append ts vs b.current).symm
  · rcases List.mem_append.1 hu with hu | hu
    · rcases hnames u hu hk with ⟨t, ht, hunit⟩ | ⟨n, hn, hmentions⟩
      · exact .inl ⟨t, List.mem_append_left us ht, hunit⟩
      · exact .inr ⟨n, List.mem_append_left ms hn, hmentions⟩
    · rcases hnames' u hu hk with ⟨t, ht, hunit⟩ | ⟨n, hn, hmentions⟩
      · exact .inl ⟨t, List.mem_append_right ts ht, hunit⟩
      · exact .inr ⟨n, List.mem_append_right ns hn, hmentions⟩

/-- Tokens around the others that no node is read from. -/
theorem between {d : Ahead} (h : Accounted a [] b) (hns : Accounted b ns c) (h' : Accounted c [] d) :
    Accounted a ns d := by
  have hall := (h.append hns).append h'
  rwa [List.append_nil] at hall

/-- Other nodes with the same literals that mention all that these mention. -/
theorem of_numerals (h : Accounted a ns b) (hnumerals : ms.flatMap Node.numerals = ns.flatMap Node.numerals)
    (hmentions : ∀ n ∈ ns, ∀ u, n.Mentions u → ∃ m ∈ ms, m.Mentions u) : Accounted a ms b := by
  obtain ⟨ts, hts, hliterals, hnames⟩ := h
  refine ⟨ts, hts, hnumerals.trans hliterals, fun u hu hk => (hnames u hu hk).imp_right ?_⟩
  rintro ⟨n, hn, hnu⟩
  exact hmentions n hn u hnu

/-- A node accounts for the tokens of what it consists of. -/
theorem node (h : Accounted a n.components b) (hn : n.isLiteral = false) : Accounted a [n] b := by
  refine h.of_numerals ?_ fun c hc u hu => ⟨n, List.mem_singleton_self n, hu.of_component hc⟩
  rw [List.flatMap_singleton, Node.numerals_eq hn]

/-- An assignment that applies an operator repeats its target. -/
theorem repeated {target : Identifier} (op : BinaryOp) (s : Option Span)
    (h : Accounted a ([target.asVar] ++ [e]) b) :
    Accounted a [.assign target (.binary target.asVar op e s) s] b := by
  refine node (h.of_numerals ?_ fun m hm u hu => ?_) rfl
  · show [] ++ (([] ++ e.numerals) ++ []) = [] ++ (e.numerals ++ [])
    rfl
  · rcases List.mem_cons.1 hm with rfl | hm
    · exact ⟨_, List.mem_cons_self, hu⟩
    · rw [List.mem_singleton.1 hm] at hu
      refine ⟨_, List.mem_cons_of_mem _ (List.mem_singleton_self _), hu.of_component ?_⟩
      exact List.mem_cons_of_mem _ (List.mem_singleton_self e)

/-! ### Single tokens -/

theorem fixed {k : Token.Kind} (h : a.Passes k b) (hk : k.Fixed) : Accounted a [] b := by
  obtain ⟨heof, hnumber, hname⟩ := h.kind ▸ hk
  refine ⟨[a.current], .cons heof h.next (.refl b), (Token.numerals_pair hnumber).symm, fun u hu hk => ?_⟩
  rw [List.mem_singleton.1 hu] at hk
  exact absurd hk hname

/-- A node that starts with a name, which it is called, and goes on with what it consists of. -/
theorem named (hname : a.Passes .identifier b) (h : Accounted b n.components c)
    (hn : n.NamedBy a.current) : Accounted a [n] c := by
  have hliteral : n.isLiteral = false := by
    cases n with
    | literal => exact absurd hn not_false
    | _ => rfl
  obtain ⟨ts, hts, hnumerals, hnames⟩ := h.node hliteral
  have hne : a.current.kind ≠ .number := by
    rw [hname.kind]
    decide
  obtain ⟨us, hus⟩ := hts.exists_head
  refine ⟨a.current :: ts, .cons (by rw [hname.kind]; decide) hname.next hts, ?_, fun u hu hkind => ?_⟩
  · rw [hnumerals, List.cons_append, hus, Token.numerals, if_neg hne]
  · rcases List.mem_cons.1 hu with rfl | hu
    · exact .inr ⟨n, List.mem_singleton_self n, n, .refl, hn⟩
    · refine (hnames u hu hkind).imp_left ?_
      rintro ⟨t, ht, hunit⟩
      exact ⟨t, List.mem_cons_of_mem _ ht, hunit⟩

/-- A number without a unit behind it. -/
theorem alone (h : a.Passes .number b) (hunit : a.current.unit? b.current = none) :
    Accounted a [.literal (.number a.current.value none) (some a.current.span)] b := by
  refine ⟨[a.current], .cons (by rw [h.kind]; decide) h.next (.refl b), ?_, fun u hu hkind => ?_⟩
  · show _ = if a.current.kind = .number then _ else _
    rw [if_pos h.kind, Token.literal, hunit]
    rfl
  · rw [List.mem_singleton.1 hu, h.kind] at hkind
    cases hkind

/-- A number with its unit. -/
theorem unit {m : LengthUnit} (h : a.Passes .number b) (hunit : a.current.unit? b.current = some m)
    (hname : b.Passes .identifier c) :
    Accounted a [.literal (.number a.current.value (some m)) (some (a.current.span.upTo b.current.span))]
      c := by
  have hne : b.current.kind ≠ .number := by
    rw [hname.kind]
    decide
  have htakes : a.Takes [a.current, b.current] c :=
    .cons (by rw [h.kind]; decide) h.next (.cons (by rw [hname.kind]; decide) hname.next (.refl c))
  refine ⟨[a.current, b.current], htakes, ?_, fun u hu hkind => ?_⟩
  · show _ = if a.current.kind = .number then _ :: Token.numerals [b.current, c.current] else _
    rw [if_pos h.kind, Token.numerals_pair hne, Token.literal, hunit]
    rfl
  · rcases List.mem_pair.1 hu with rfl | rfl
    · rw [h.kind] at hkind
      cases hkind
    · refine .inl ⟨a.current, List.mem_cons_self, h.kind, ?_⟩
      rw [hunit]
      rfl

end Accounted

/-! ## What is read -/

/-- What such nodes account for: the arguments of a call for the tokens behind its name. -/
def Portion.Accounts (a : Ahead) (ns : List Node) (b : Ahead) : Portion → Prop
  | nodes _ | body => Accounted a ns b
  | head span => ∃ c, a.Passes .identifier c ∧ span.map Span.start = some a.current.span.start ∧
      Accounted c ns b

namespace Reading

variable {a b : Ahead} {ns : List Node}

/-- **What is read accounts for the tokens that it was read from.** -/
theorem accounts {p : Portion} (h : Reading p a ns b) : p.Accounts a ns b := by
  induction h with
  | nil a => exact .refl a
  | append _ _ ih ih' => exact Accounted.append ih ih'
  | sign sign fixed => exact .fixed sign fixed
  | number number alone => exact .alone number alone
  | quantity number touches next => exact .unit number touches next
  | truth word =>
    exact (Accounted.fixed word (by decide)).of_numerals rfl fun n hn => absurd hn List.not_mem_nil
  | name name => exact .named name (.refl _) ⟨rfl, rfl⟩
  | matrix opens _ closes _ _ _ ih =>
    exact .node (.between (.fixed opens (by decide)) ih (.fixed closes (by decide))) rfl
  | head name opens _ closes ih =>
    exact ⟨_, name, rfl, .between (.fixed opens (by decide)) ih (.fixed closes (by decide))⟩
  | call _ ih =>
    obtain ⟨c, hname, hspan, hargs⟩ := ih
    exact .named hname hargs ⟨rfl, hspan⟩
  | define _ _ sign fixed _ ih ih' =>
    obtain ⟨c, hname, hspan, hargs⟩ := ih
    refine .named hname ?_ ⟨rfl, Span.start_join hspan _⟩
    exact .append hargs (.append (.fixed sign fixed) ih')
  | unary kind next _ ih =>
    exact .node (.append (.fixed ⟨rfl, next⟩ (UnaryOp.fixed_of_ofKind? kind)) ih) rfl
  | binary _ _ ih => exact Accounted.node ih rfl
  | ternary _ ih => exact Accounted.node ih rfl
  | braces opens _ closes ih =>
    exact .node (.between (.fixed opens (by decide)) ih (.fixed closes (by decide))) rfl
  | value _ ih => exact Accounted.node ih rfl
  | line _ ih => exact ih
  | assign _ ih => exact Accounted.node ih rfl
  | apply op _ ih => exact .repeated op _ ih

end Reading

/-- The literals of a program are those of the numbers in its text, in order, and every name in it is a unit or
mentioned. -/
theorem Node.accounted_of_parse {file source : String} {program : Node}
    (h : parse file source = .ok program) :
    ∃ ts last, TokenStream.ofChars file source.toList = ⟨ts, .ok last⟩ ∧
      program.numerals = Token.numerals (ts ++ [last]) ∧
      ∀ u ∈ ts, u.kind = .identifier →
        (∃ t ∈ ts, t.kind = .number ∧ (t.unit? u).isSome = true) ∨ program.Mentions u := by
  obtain ⟨a, b, xs, hstart, hend, rfl, hread⟩ := reads_of_parse h
  obtain ⟨ts, last, -, -, hstream, -⟩ := lines_of_parse h
  obtain ⟨hkinds, hlast⟩ := TokenStream.kind_of_ofChars hstream
  rw [hstream, Ahead.start_eq_before] at hstart
  cases hstart
  have hall : Accounted (Ahead.before ts last)
      [.block xs (some ((Ahead.before ts last).current.span.upTo b.current.span))] b :=
    .node hread.accounts rfl
  obtain ⟨us, hus, hnumerals, hnames⟩ := hall
  obtain ⟨vs, rfl, rfl⟩ := hus.before hkinds hlast
  -- The parser stops at the end of input, so no token is left.
  cases vs with
  | cons v vs => exact absurd hend (hkinds v (List.mem_append_right us List.mem_cons_self))
  | nil =>
    rw [List.append_nil] at hstream
    rw [List.flatMap_singleton] at hnumerals
    refine ⟨us, last, hstream, hnumerals, fun u hu hk => (hnames u hu hk).imp_right ?_⟩
    rintro ⟨n, hn, hmentions⟩
    rwa [List.mem_singleton.1 hn] at hmentions

end Reckon
