import Mathlib.Logic.Equiv.List
import Reckon.Proofs.Syntax.Bare

/-!
# Where a node stands

A node is made of other nodes (`parts`), which are evaluated where it is evaluated.  The body of a
definition is not one of them: it is evaluated when the function is called.  Every node of a program
stands inside the bodies of some definitions, none at the top (`Stands`), and there are no more of them
than definitions are nested in one another anywhere in the program (`nesting`).

Equal nodes can stand at several places.  Every program has a copy, the same up to spans, in which the
span of a node tells where it stands (`exists_marked`).
-/

namespace Reckon.Node

/-- The nodes that a node is made of, in order.  The body of a definition is not among them. -/
def parts : Node → List Node
  | empty _ | literal _ _ | var _ _ | define _ _ _ _ _ => []
  | unary _ e _ | assign _ e _ => [e]
  | binary l _ r _ => [l, r]
  | ternary c y n _ => [c, y, n]
  | matrix rows _ => rows.flatten
  | call _ args _ => args
  | block children _ => children

/-- The statements of the body of a definition. -/
def body : Node → List Node
  | define _ _ statements _ _ => statements
  | _ => []

theorem sizeOf_parts {n e : Node} (h : e ∈ n.parts) : sizeOf e < sizeOf n := by
  cases n with
  | matrix rows span =>
    obtain ⟨row, hrow, he⟩ := List.mem_flatten.1 h
    have hcell := List.sizeOf_lt_of_mem he
    have hrows := List.sizeOf_lt_of_mem hrow
    rw [matrix.sizeOf_spec]
    omega
  | call f args span =>
    have harg : sizeOf e < sizeOf args := List.sizeOf_lt_of_mem h
    rw [call.sizeOf_spec]
    omega
  | block children span =>
    have hchild : sizeOf e < sizeOf children := List.sizeOf_lt_of_mem h
    rw [block.sizeOf_spec]
    omega
  | empty | literal | var | define => exact absurd h List.not_mem_nil
  | unary | assign | binary | ternary =>
    simp only [parts, List.mem_cons, List.not_mem_nil, or_false] at h
    grind [unary.sizeOf_spec, assign.sizeOf_spec, binary.sizeOf_spec, ternary.sizeOf_spec]

theorem sizeOf_body {n e : Node} (h : e ∈ n.body) : sizeOf e < sizeOf n := by
  cases n with
  | define f ps statements bodySpan span =>
    have hstatement : sizeOf e < sizeOf statements := List.sizeOf_lt_of_mem h
    rw [define.sizeOf_spec]
    omega
  | _ => exact absurd h List.not_mem_nil

/-- What holds of a node if it holds of its parts and of its body holds of every node. -/
@[elab_as_elim]
theorem induct {motive : Node → Prop}
    (step : ∀ n, (∀ e ∈ n.parts, motive e) → (∀ e ∈ n.body, motive e) → motive n) (n : Node) :
    motive n :=
  step n (fun e _ => induct step e) (fun e _ => induct step e)
termination_by sizeOf n
decreasing_by
  · exact sizeOf_parts ‹_›
  · exact sizeOf_body ‹_›

/-! ## Nesting -/

mutual

/-- How many definitions are nested in one another, at most. -/
def nesting : Node → Nat
  | empty _ | literal _ _ | var _ _ => 0
  | unary _ e _ | assign _ e _ => e.nesting
  | binary l _ r _ => max l.nesting r.nesting
  | ternary c y n _ => max c.nesting (max y.nesting n.nesting)
  | matrix rows _ => nestingRows rows
  | call _ args _ => nestingList args
  | block children _ => nestingList children
  | define _ _ statements _ _ => nestingList statements + 1

/-- How many definitions are nested in one another in some of the trees. -/
def nestingList : List Node → Nat
  | [] => 0
  | n :: rest => max n.nesting (nestingList rest)

/-- How many definitions are nested in one another in some of the rows. -/
def nestingRows : List (List Node) → Nat
  | [] => 0
  | row :: rest => max (nestingList row) (nestingRows rest)

end

theorem nesting_le_list {n : Node} {ns : List Node} (h : n ∈ ns) : n.nesting ≤ nestingList ns := by
  induction ns with
  | nil => cases h
  | cons m rest ih =>
    rw [nestingList]
    rcases List.mem_cons.1 h with rfl | h
    · exact Nat.le_max_left _ _
    · exact Nat.le_trans (ih h) (Nat.le_max_right _ _)

theorem nestingList_le_rows {row : List Node} {rows : List (List Node)} (h : row ∈ rows) :
    nestingList row ≤ nestingRows rows := by
  induction rows with
  | nil => cases h
  | cons r rest ih =>
    rw [nestingRows]
    rcases List.mem_cons.1 h with rfl | h
    · exact Nat.le_max_left _ _
    · exact Nat.le_trans (ih h) (Nat.le_max_right _ _)

theorem nesting_parts {n e : Node} (h : e ∈ n.parts) : e.nesting ≤ n.nesting := by
  cases n with
  | matrix rows span =>
    obtain ⟨row, hrow, he⟩ := List.mem_flatten.1 h
    rw [nesting]
    exact Nat.le_trans (nesting_le_list he) (nestingList_le_rows hrow)
  | call f args span =>
    rw [nesting]
    exact nesting_le_list h
  | block children span =>
    rw [nesting]
    exact nesting_le_list h
  | empty | literal | var | define => exact absurd h List.not_mem_nil
  | unary | assign | binary | ternary =>
    simp only [parts, List.mem_cons, List.not_mem_nil, or_false] at h
    grind [nesting]

/-! ## Places -/

/-- The node stands in the program inside the bodies of exactly the definitions of these names, the
innermost first.  The body itself, as a block, stands inside its definition. -/
inductive Stands (program : Node) : List String → Node → Prop where
  | root : Stands program [] program
  | part {around : List String} {n e : Node} (hn : Stands program around n) (he : e ∈ n.parts) :
      Stands program around e
  | body {around : List String} {f : String} {ps : List Identifier} {statements : List Node}
      {bodySpan span : Option Span}
      (hd : Stands program around (.define f ps statements bodySpan span)) :
      Stands program (f :: around) (.block statements bodySpan)

/-- Around a node stand no more definitions than are nested in one another. -/
theorem Stands.length_add_nesting {program n : Node} {around : List String}
    (h : Stands program around n) : around.length + n.nesting ≤ program.nesting := by
  induction h with
  | root => exact Nat.le_of_eq (Nat.zero_add _)
  | part _ he ih =>
    have hle := nesting_parts he
    omega
  | body _ ih =>
    simp only [nesting, List.length_cons] at ih ⊢
    omega

/-! ## Spans that tell places apart -/

mutual

/-- The tree with spans that are the `code` of the definitions around each node. -/
def mark (code : List String → Option Span) (around : List String) : Node → Node
  | empty _ => empty (code around)
  | literal v _ => literal v (code around)
  | var x _ => var x (code around)
  | unary op e _ => unary op (e.mark code around) (code around)
  | binary l op r _ => binary (l.mark code around) op (r.mark code around) (code around)
  | ternary c y n _ =>
    ternary (c.mark code around) (y.mark code around) (n.mark code around) (code around)
  | matrix rows _ => matrix (markRows code around rows) (code around)
  | call f args _ => call f (markList code around args) (code around)
  | assign t e _ => assign t (e.mark code around) (code around)
  | block children _ => block (markList code around children) (code around)
  | define f ps statements _ _ =>
    define f ps (markList code (f :: around) statements) (code (f :: around)) (code around)

/-- Trees with such spans. -/
def markList (code : List String → Option Span) (around : List String) : List Node → List Node
  | [] => []
  | n :: rest => n.mark code around :: markList code around rest

/-- Rows of trees with such spans. -/
def markRows (code : List String → Option Span) (around : List String) :
    List (List Node) → List (List Node)
  | [] => []
  | row :: rest => markList code around row :: markRows code around rest

end

section Mark

variable {code : List String → Option Span} {around : List String} {n e : Node}

theorem markList_eq_map (ns : List Node) : markList code around ns = ns.map (mark code around) := by
  induction ns with
  | nil => rfl
  | cons n rest ih => rw [markList, ih, List.map_cons]

theorem markRows_eq_map (rows : List (List Node)) :
    markRows code around rows = rows.map (List.map (mark code around)) := by
  induction rows with
  | nil => rfl
  | cons row rest ih => rw [markRows, ih, markList_eq_map, List.map_cons]

theorem span_mark (n : Node) : (n.mark code around).span = code around := by
  cases n <;> rfl

theorem parts_mark (n : Node) : (n.mark code around).parts = n.parts.map (mark code around) := by
  cases n with
  | matrix rows span => rw [mark, parts, parts, markRows_eq_map, List.map_flatten]
  | call f args span => rw [mark, parts, parts, markList_eq_map]
  | block children span => rw [mark, parts, parts, markList_eq_map]
  | _ => rfl

theorem bare_mark (n : Node) (around : List String) : (n.mark code around).bare = n.bare := by
  induction n using induct generalizing around with
  | step n hparts hbody =>
    have hlist : ∀ ns : List Node, (∀ e ∈ ns, (e.mark code around).bare = e.bare) →
        (ns.map (mark code around)).map bare = ns.map bare := by
      intro ns hns
      rw [List.map_map]
      exact List.map_congr_left hns
    cases n with
    | empty | literal | var => rfl
    | unary op e s => simp [mark, bare, hparts e (by simp [parts])]
    | binary l op r s => simp [mark, bare, hparts l (by simp [parts]), hparts r (by simp [parts])]
    | ternary c y m s =>
      simp [mark, bare, hparts c (by simp [parts]), hparts y (by simp [parts]),
        hparts m (by simp [parts])]
    | assign t e s => simp [mark, bare, hparts e (by simp [parts])]
    | matrix rows s =>
      rw [mark, bare, bare, markRows_eq_map, bareRows_eq_map, bareRows_eq_map, List.map_map]
      refine congrArg (matrix · none) (List.map_congr_left fun row hrow => ?_)
      exact hlist row fun e he => hparts e (List.mem_flatten.2 ⟨row, hrow, he⟩) around
    | call f args s =>
      rw [mark, bare, bare, markList_eq_map, bareList_eq_map, bareList_eq_map,
        hlist args fun e he => hparts e he around]
    | block children s =>
      rw [mark, bare, bare, markList_eq_map, bareList_eq_map, bareList_eq_map,
        hlist children fun e he => hparts e he around]
    | define f ps statements bs s =>
      rw [mark, bare, bare, markList_eq_map, bareList_eq_map, bareList_eq_map, List.map_map]
      refine congrArg (define f _ · none none) (List.map_congr_left fun e he => ?_)
      exact hbody e he (f :: around)

theorem Stands.of_mark (h : (n.mark code []).Stands around e) : ∃ e₀ : Node, e = e₀.mark code around := by
  induction h with
  | root => exact ⟨n, rfl⟩
  | part _ he ih =>
    obtain ⟨n₀, rfl⟩ := ih
    rw [parts_mark] at he
    obtain ⟨e₀, -, rfl⟩ := List.mem_map.1 he
    exact ⟨e₀, rfl⟩
  | body _ ih =>
    obtain ⟨n₀, hn₀⟩ := ih
    cases n₀ with
    | define f ps statements bs s =>
      cases hn₀
      exact ⟨.block statements none, rfl⟩
    | _ => cases hn₀

end Mark

/-- Programs have copies, the same up to spans, in which equal nodes stand inside the same
definitions. -/
theorem exists_marked : ∃ marked : Node → Node, (∀ n, (marked n).bare = n.bare) ∧
    ∀ p p' around around' e, (marked p).Stands around e → (marked p').Stands around' e →
      around = around' := by
  have hcountable : Countable (List String) := by
    have hstring : Function.Injective fun s : String => s.toList.map Char.toNat := fun s t h =>
      String.toList_injective (List.map_injective_iff.2 (fun _ _ => Char.toNat_inj.1) h)
    have hlist := List.map_injective_iff.2 hstring
    exact hlist.countable
  obtain ⟨number, hnumber⟩ := Countable.exists_injective_nat (List String)
  let code : List String → Option Span := fun around => some (.point "" (number around) 0)
  have hcode : Function.Injective code := by
    intro around around' h
    have hline : ((number around : Nat) : Int) = number around' :=
      congrArg Span.startLine (Option.some.inj h)
    exact hnumber (Int.ofNat.inj hline)
  refine ⟨mark code [], fun n => bare_mark n [], fun p p' around around' e h h' => hcode ?_⟩
  obtain ⟨e₀, he₀⟩ := h.of_mark
  obtain ⟨e₁, he₁⟩ := h'.of_mark
  calc
    code around = e.span := by rw [he₀, span_mark]
    _ = code around' := by rw [he₁, span_mark]

end Reckon.Node
