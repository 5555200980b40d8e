import Reckon.Proofs.Printing.Line

/-!
# Printing and reading back

Every phrase is read back as it was printed, by induction on the phrase: as an operand if its rank
allows that, as a chain of operators of its rank otherwise, and in any case as a whole expression.
Parentheses make an operand of any of them, which is why a phrase can be put between them wherever it
stands.

The main result is about programs: reading a printed program gives its statements, up to spans.
-/

namespace Reckon

open Reckon.Chunk Reckon.Parser

namespace Phrase

variable (extra : Place → Phrase → Bool)

/-- The ways in which a phrase is read back that its rank allows. -/
structure ReadBack (e : Phrase) : Prop where
  operand : e.rank = 0 → Operand (e.chunks extra) e.node
  chain : e.rank ≤ BinaryOp.levels → Chain e.rank (e.chunks extra) e.node
  whole : Whole (e.chunks extra) e.node

variable {extra} {e : Phrase}

/-- An operand can stand anywhere. -/
theorem ReadBack.of_operand (h : Operand (e.chunks extra) e.node) : ReadBack extra e :=
  ⟨fun _ => h, fun _ => h.chain _, (h.chain 0).whole (Nat.zero_le _)⟩

theorem ReadBack.of_chain (hrank : e.rank ≠ 0) (hle : e.rank ≤ BinaryOp.levels)
    (h : Chain e.rank (e.chunks extra) e.node) : ReadBack extra e :=
  ⟨fun h0 => absurd h0 hrank, fun _ => h, h.whole hle⟩

theorem ReadBack.of_whole (hrank : ¬ e.rank ≤ BinaryOp.levels)
    (h : Whole (e.chunks extra) e.node) : ReadBack extra e :=
  ⟨fun h0 => absurd (h0 ▸ Nat.zero_le _) hrank, fun hle => absurd hle hrank, h⟩

/-- Behind a sign stands an operand. -/
theorem ReadBack.signed (h : ReadBack extra e) :
    Operand (enclose extra .signed e (e.chunks extra)) e.node := by
  unfold enclose
  split
  · rename_i hc
    exact h.operand (Nat.le_zero.1 hc.1)
  · exact h.whole.parens

/-- Beside an operator, or in a condition, stands a chain of the rank that the place allows. -/
theorem ReadBack.beside (h : ReadBack extra e) (place : Place)
    (hle : place.bound ≤ BinaryOp.levels) :
    Chain place.bound (enclose extra place e (e.chunks extra)) e.node := by
  unfold enclose
  split
  · rename_i hc
    exact (h.chain (Nat.le_trans hc.1 hle)).mono hc.1
  · exact h.whole.parens.chain _

/-- Anywhere else stands a whole expression. -/
theorem ReadBack.alone (h : ReadBack extra e) (place : Place) :
    Whole (enclose extra place e (e.chunks extra)) e.node := by
  unfold enclose
  split
  · exact h.whole
  · exact (h.whole.parens.chain 0).whole (Nat.zero_le _)

/-- A line is read back as its statement. -/
theorem line_readBack {ps : List Chunk} {node : Node} (target : Option Name) (h : Whole ps node) :
    Line (lineChunks target ps) (lineNode target node) := by
  cases target with
  | none => exact h.line
  | some x => exact h.assignLine x

/-- Every phrase is read back as it was printed. -/
theorem readBack (e : Phrase) : ReadBack extra e := by
  induction e with
  | number n unit => exact .of_operand (.number extra n unit)
  | boolean b => exact .of_operand (.boolean extra b)
  | var x => exact .of_operand (.var x)
  | unary op e ih => exact .of_operand (.unary op ih.signed)
  | binary l op r ihl ihr =>
    have hlevel := op.level_lt_levels
    refine .of_chain (Nat.succ_ne_zero _) hlevel ?_
    rw [chunks, List.append_assoc]
    exact Chain.binary (ihl.beside (.leftOf op) hlevel)
      (ihr.beside (.rightOf op) (Nat.le_of_lt hlevel))
  | ternary c y n ihc ihy ihn =>
    refine .of_whole (Nat.not_succ_le_self _) ?_
    rw [chunks, List.append_assoc, List.append_assoc, List.append_assoc]
    exact Whole.ternary (ihc.beside .condition (Nat.le_refl _)) (Nat.le_refl _)
      (ihy.alone .branch) (ihn.alone .branch)
  | matrix height width cells ih =>
    have h := Operand.matrix (f := fun e => enclose extra .cell e (e.chunks extra)) (g := node)
      (List.ofFn fun i => List.ofFn (cells i)) (by simp)
      (List.forall_mem_ofFn_iff.2 fun i => List.length_ofFn)
      (List.forall_mem_ofFn_iff.2 fun i => List.forall_mem_ofFn_iff.2 fun j => (ih i j).alone .cell)
    simp only [List.map_ofFn, Function.comp_def] at h
    exact .of_operand h
  | call f arity args ih =>
    have h := Operand.call (f := fun e => enclose extra .argument e (e.chunks extra)) (g := node) f
      (List.ofFn args) (List.forall_mem_ofFn_iff.2 fun i => (ih i).alone .argument)
    simp only [List.map_ofFn, Function.comp_def] at h
    exact .of_operand h
  | define f params distinct size targets body ih =>
    have h := Operand.define (f := fun i => lineChunks (targets i)
        (enclose extra .line (body i) ((body i).chunks extra)))
      (g := fun i => lineNode (targets i) (body i).node) f distinct (List.ofFn fun i => i)
      fun i _ => line_readBack (targets i) ((ih i).alone .line)
    simp only [lineBlock, List.map_ofFn, Function.comp_def] at h
    refine .of_operand ?_
    rw [chunks, List.append_assoc]
    exact h

end Phrase

/-! ## Programs -/

namespace Statement

variable (extra : Place → Phrase → Bool)

theorem readBack (s : Statement) : Line (s.chunks extra) s.node :=
  Phrase.line_readBack s.target (s.value.readBack.alone .line)

/-- The tokens of a printed program are read as its statements. -/
theorem program_readBack {p : List Statement} {ts : List Token} {last : Token}
    (hr : Reads (lineBlock (chunks extra) p) ts) (hl : last.kind = .eof) :
    ∃ xs span, xs.map Node.bare = p.map node ∧
      program (Ahead.before ts last) = .ok (.block xs span, Ahead.before [] last) := by
  have hend : EndsLines (Ahead.before [] last) := .inl hl
  have hlines : ∀ s ∈ p, Line (s.chunks extra) s.node := fun s _ => s.readBack extra
  have hfirst := lineBlock_ne_newline hlines hr hl hend
  have hskip : bounded skipNewlines (Ahead.before ts last) = .ok ((), Ahead.before (ts ++ []) last) := by
    rw [List.append_nil] at hfirst ⊢
    exact skipNewlines_run_no hfirst _
  -- The nesting that the parser allows is more than twice the number of tokens.
  have hsize := Ahead.length_lt_size ts last
  obtain ⟨xs, hxs, hrun⟩ := statements_lineBlock (n := 2 * (Ahead.before ts last).size + 1) hlines hskip
    hr hl hend (by omega)
  refine ⟨xs, some ((Ahead.before ts last).current.span.upTo last.span), hxs, ?_⟩
  rw [program, bind_run_ok (current_run _), bind_run_ok (get_run _)]
  show (statements (2 * (Ahead.before ts last).size + 1 + 1) >>= _) _ = _
  rw [bind_run_ok hrun, bind_run_ok (current_run _)]
  exact congrFun (if_pos hl) _

/-- **Reading a printed program gives the program, up to spans.**  Parentheses that are not needed
make no difference. -/
theorem parse_programText (file : String) (p : List Statement) :
    (Node.parse file (programText extra p)).map Node.bare = .ok (.block (p.map node) none) := by
  obtain ⟨ts, last, hstream, hl, hr⟩ := TokenStream.ofChars_reads file (clear_program extra p)
  rw [List.flatMap_def] at hr
  obtain ⟨xs, span, hxs, hrun⟩ := program_readBack extra hr hl
  have hparse : Node.parse file (programText extra p) = .ok (.block xs span) := by
    unfold Node.parse programText Node.ofTokens
    rw [String.toList_ofList, hstream, Ahead.start_eq_before]
    show (program (Ahead.before ts last) >>= fun r => Except.ok r.1) = _
    rw [hrun]
    rfl
  rw [hparse]
  show Except.ok (Node.block (Node.bareList xs) none) = _
  rw [Node.bareList_eq_map, hxs]

example :
    let x : Name := ⟨'x', [], by decide, by simp, by decide⟩
    let two : Phrase := .number ⟨['2'], none, by decide, by simp, by simp⟩ none
    let sum : Phrase := .binary (.var x) .add two
    programText Phrase.plain [⟨some x, .binary sum .mul (.unary .minus sum)⟩, ⟨none, .var x⟩] =
      "x = (x + 2) * -(x + 2)\nx\n" := by
  decide

end Statement

end Reckon
