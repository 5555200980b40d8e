import Reckon.Proofs.Parsing.Outcomes

/-!
# What the parser gives is well formed

Where no operand starts, an operand is read as nothing (`Node.empty`), and every rule that needs one has
to refuse it.  That each rule does, and checks the rows of matrices and the parameters of definitions
besides, is seen from the trees that come out: every node in them is `Proper` (`Node.wellFormed_of_parse`).

A node is proper by the way in which it was read (`Reading.proper`), and all nodes of a tree were read.
-/

namespace Reckon

namespace Node

/-- The node is a block. -/
def isBlock : Node → Bool
  | block _ _ => true
  | _ => false

/-- The node is an assignment. -/
def isAssignment : Node → Bool
  | assign _ _ _ => true
  | _ => false

/-- What the evaluation of a node can count on. -/
structure Proper (n : Node) : Prop where
  notEmpty : n.isEmpty = false
  spanned : n.span.isSome = true
  operator : ∀ l op r s, n = binary l op r s → op.symbol ∈ BinaryOp.all.map BinaryOp.symbol
  sign : ∀ op e s, n = unary op e s → op.symbol ∈ ["+", "-", "!"]
  rows : ∀ rows s, n = matrix rows s → rows ≠ [] ∧ ∃ width, 0 < width ∧ ∀ row ∈ rows, row.length = width
  params : ∀ f ps body bs s, n = define f ps body bs s →
    (ps.map Identifier.name).Nodup ∧ ∀ p ∈ ps, p.span.isSome = true
  target : ∀ t e s, n = assign t e s → t.span.isSome = true
  /-- A block is a whole program or a body. -/
  noBlock : ∀ e ∈ n.parts, e.isBlock = false
  /-- An assignment is a statement of a block. -/
  noAssignment : n.isBlock = false → ∀ e ∈ n.parts, e.isAssignment = false

/-- Every node in the tree is proper, those in bodies included. -/
def Formed (n : Node) : Prop :=
  ∀ around e, n.Stands around e → e.Proper

/-- A block of which every node is proper. -/
structure WellFormed (program : Node) : Prop where
  isBlock : program.isBlock = true
  formed : program.Formed

theorem WellFormed.exists_block {program : Node} (h : program.WellFormed) :
    ∃ children span, program = block children span := by
  have hblock := h.isBlock
  cases program with
  | block children span => exact ⟨children, span, rfl⟩
  | _ => cases hblock

/-- The block that is the body of a definition. -/
def bodyBlock? : Node → Option Node
  | define _ _ body bodySpan _ => some (block body bodySpan)
  | _ => none

theorem Formed.proper {n : Node} (h : n.Formed) : n.Proper :=
  h [] n .root

/-- A statement: an expression or an assignment. -/
structure Statement (n : Node) : Prop where
  formed : n.Formed
  notBlock : n.isBlock = false

/-- The rows of a matrix. -/
def rows? : Node → Option (List (List Node))
  | matrix rows _ => some rows
  | _ => none

/-- The parameters of a definition. -/
def params? : Node → Option (List Identifier)
  | define _ params _ _ _ => some params
  | _ => none

/-- The name that is assigned to. -/
def target? : Node → Option Identifier
  | assign target _ _ => some target
  | _ => none

/-- What is to be checked of a node that is made of operands. -/
theorem Proper.of_operands {n : Node} (hempty : n.isEmpty = false) (hspan : n.span.isSome = true)
    (hparts : ∀ e ∈ n.parts, e.isBlock = false ∧ e.isAssignment = false)
    (hrows : ∀ rows ∈ n.rows?, rows ≠ [] ∧ ∃ width, 0 < width ∧ ∀ row ∈ rows, row.length = width)
    (hparams : ∀ ps ∈ n.params?, (ps.map Identifier.name).Nodup ∧ ∀ p ∈ ps, p.span.isSome = true)
    (htarget : ∀ t ∈ n.target?, t.span.isSome = true) : n.Proper where
  notEmpty := hempty
  spanned := hspan
  operator _ op _ _ _ := List.mem_map.2 ⟨op, BinaryOp.mem_all op, rfl⟩
  sign op _ _ _ := by cases op <;> simp [UnaryOp.symbol]
  rows rows _ h := hrows rows (by rw [h]; rfl)
  params _ ps _ _ _ h := hparams ps (by rw [h]; rfl)
  target t _ _ h := htarget t (by rw [h]; rfl)
  noBlock e he := (hparts e he).1
  noAssignment _ e he := (hparts e he).2

/-- A block of statements. -/
theorem Proper.block {children : List Node} {s : Option Span} (hs : s.isSome = true)
    (h : ∀ e ∈ children, e.isBlock = false) : (Node.block children s).Proper where
  notEmpty := rfl
  spanned := hs
  operator _ _ _ _ h := by cases h
  sign _ _ _ h := by cases h
  rows _ _ h := by cases h
  params _ _ _ _ _ h := by cases h
  target _ _ _ h := by cases h
  noBlock := h
  noAssignment h := by cases h

end Node

/-! ## What is read -/

/-- The node can be among what is read. -/
def Portion.Admits : Portion → Node → Prop
  | nodes true, n => n.isBlock = false
  | nodes false, n | head _, n => n.isBlock = false ∧ n.isAssignment = false
  | body, n => n.isBlock = true

namespace Reading

variable {p : Portion} {a b : Ahead} {xs : List Node}

theorem admits (h : Reading p a xs b) : ∀ x ∈ xs, p.Admits x := by
  induction h with
  | nil | sign => exact nofun
  | append _ _ ih ih' => exact List.forall_mem_append.2 ⟨ih, ih'⟩
  | head _ _ _ _ ih => exact ih
  | line _ ih => exact fun x hx => (ih x hx).1
  | braces | value | assign | apply => exact List.forall_mem_singleton.2 rfl
  | _ => exact List.forall_mem_singleton.2 ⟨rfl, rfl⟩

/-- **A node that is read is proper.** -/
theorem proper (h : Reading p a xs b) : ∀ x ∈ xs, x.Proper := by
  have hspan : ∀ {p : Portion} {a b : Ahead} {n : Node}, Reading p a [n] b → n.span.isSome = true :=
    fun h => (h.starts _ List.mem_cons_self).isSome
  induction h with
  | nil | sign => exact nofun
  | append _ _ ih ih' => exact List.forall_mem_append.2 ⟨ih, ih'⟩
  | head _ _ _ _ ih | line _ ih => exact ih
  | number | quantity | truth | name =>
    exact List.forall_mem_singleton.2 (.of_operands rfl rfl nofun nofun nofun nofun)
  | matrix opens cells closes nonempty wide even =>
    refine List.forall_mem_singleton.2 (.of_operands rfl rfl cells.admits ?_ nofun nofun)
    rintro rows ⟨⟩
    exact ⟨nonempty, _, wide, even⟩
  | call head =>
    exact List.forall_mem_singleton.2 (.of_operands rfl head.head_start.isSome head.admits nofun nofun nofun)
  | define head distinct sign fixed body =>
    refine List.forall_mem_singleton.2
      (.of_operands rfl (head.head_start.join _).isSome nofun nofun ?_ nofun)
    rintro ps ⟨⟩
    exact ⟨distinct, fun q hq => (head.starts q.asVar (List.mem_map_of_mem hq)).isSome⟩
  | unary kind next operand =>
    exact List.forall_mem_singleton.2
      (.of_operands rfl (hspan (.unary kind next operand)) operand.admits nofun nofun nofun)
  | binary op operands =>
    exact List.forall_mem_singleton.2
      (.of_operands rfl (hspan (.binary op operands)) operands.admits nofun nofun nofun)
  | ternary operands =>
    exact List.forall_mem_singleton.2
      (.of_operands rfl (hspan (.ternary operands)) operands.admits nofun nofun nofun)
  | braces opens lines closes => exact List.forall_mem_singleton.2 (.block rfl lines.admits)
  | value operand =>
    exact List.forall_mem_singleton.2 (.block (hspan operand) fun e he => (operand.admits e he).1)
  | assign operands =>
    refine List.forall_mem_singleton.2 (.of_operands rfl (hspan (.assign operands)) ?_ nofun nofun ?_)
    · exact List.forall_mem_singleton.2 (operands.admits _ (List.mem_cons_of_mem _ List.mem_cons_self))
    · rintro t ⟨⟩
      exact (operands.starts _ List.mem_cons_self).isSome
  | apply op operands =>
    refine List.forall_mem_singleton.2 (.of_operands rfl (hspan (.apply op operands)) ?_ nofun nofun ?_)
    · exact List.forall_mem_singleton.2 ⟨rfl, rfl⟩
    · rintro t ⟨⟩
      exact (operands.starts _ List.mem_cons_self).isSome

end Reading

/-- A text that is accepted is a well-formed program. -/
theorem Node.wellFormed_of_parse {file source : String} {program : Node}
    (h : Node.parse file source = .ok program) : program.WellFormed := by
  obtain ⟨a, b, xs, -, -, rfl, hread⟩ := reads_of_parse h
  refine ⟨rfl, fun around e he => ?_⟩
  rcases hread.block_contains he.contains with rfl | ⟨q, c, d, -, he⟩
  · exact .block rfl hread.admits
  · exact he.proper e List.mem_cons_self

end Reckon
