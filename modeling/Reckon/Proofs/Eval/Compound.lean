import Reckon.Proofs.Eval.Spanless
import Reckon.Proofs.Parsing.Passage
import Reckon.Proofs.Printing.Line

/-!
# Assignments that apply an operator

`x += e` is `x = x + (e)`: both are read as the same assignment up to spans, whatever expression `e` is, and
also between other assignments with commas, and so they run alike in every scope (`Program.runIn_compound`).
In the one text the expression stands behind the sign and ends with the assignment
(`Passage.exists_compound`); in the other it stands between parentheses, so that no operator around it takes a
part of it (`Passage.exists_parenthesized`).  It is the same passage in both places.
-/

namespace Reckon

open Ahead (before)

/-! ## Runs -/

namespace Parser

variable {t u last : Token} {ts : List Token} {e : Parser Node} {node : Node} {b : Ahead}
  {op : BinaryOp} {n : Nat}

/-- An assignment that applies an operator has its target once more in its value. -/
theorem assignment_run_compound (ht : t.kind = .identifier) (hu : assignment? u.kind = some (some op))
    (he : e (before ts last) = .ok (node, b)) (hsome : node.isEmpty = false) :
    assignment e (before (t :: u :: ts) last) = .ok (.assign ⟨t.text, some t.span⟩
      (.binary (.var t.text (some t.span)) op node (Span.join (some t.span) node.span))
      (Span.join (some t.span) node.span), b) := by
  have hk : u.kind ≠ .eof := by
    intro hk
    rw [hk] at hu
    cases hu
  rw [assignment, bind_run_ok (identifier_run ht _ _), bind_run_ok (current_run _), Ahead.current_before,
    hu]
  dsimp only
  rw [bind_run_ok (advance_run_ok (Ahead.advance_before hk)), bind_run_ok he,
    bind_run_ok (require_run_ok hsome b)]
  rfl

/-- A name, an operator, and an operand up to the end. -/
theorem expr_run_applied (ht : t.kind = .identifier) (hu : BinaryOp.ofKind? u.kind = some op)
    (hf : Parser.factor (n + 1) (before ts last) = .ok (node, before [] last))
    (hsome : node.isEmpty = false) (hlast : last.kind = .eof) :
    Parser.expr (n + 2) .ignored (before (t :: u :: ts) last) =
      .ok (.binary (.var t.text (some t.span)) op node (Span.join (some t.span) node.span),
        before [] last) := by
  have hparen : u.kind ≠ .lparen ∧ u.kind ≠ .eof := by
    constructor <;> intro hk <;> rw [hk] at hu <;> cases hu
  have hop : operator? .ignored BinaryOp.levels u = some op := by
    unfold operator?
    rw [hu]
    cases op <;> rfl
  have hstop : ∀ bound, operator? .ignored bound (before [] last).current = none := by
    intro bound
    unfold operator?
    rw [show (before [] last).current.kind = .eof from hlast]
    rfl
  have hjoin : join (.var t.text (some t.span)) op
      (Parser.factor (n + 1) >>= climbing (Parser.factor (n + 1)) .ignored op.level)
      (before (u :: ts) last) =
        .ok (.binary (.var t.text (some t.span)) op node (Span.join (some t.span) node.span),
          before [] last) := by
    unfold join
    rw [bind_run_ok (require_run_ok rfl _), bind_run_ok (advance_run_ok (Ahead.advance_before hparen.2)),
      bind_run_ok ((bind_run_ok hf).trans (climbing_none (hstop _))), bind_run_ok (require_run_ok hsome _)]
    rfl
  have hmoves : Moves (Parser.factor (n + 1)) := (Moves.grammar _).2.1
  have hbinary : Parser.binary (Parser.factor (n + 1)) .ignored BinaryOp.levels
      (before (t :: u :: ts) last) =
        .ok (.binary (.var t.text (some t.span)) op node (Span.join (some t.span) node.span),
          before [] last) := by
    have hname : (before (u :: ts) last).current.kind ≠ .lparen := hparen.1
    refine (bind_run_ok (factor_name ht hname n)).trans ?_
    refine (climbing_some hmoves (Ahead.closed_before hlast _) hop).trans ?_
    rw [bind_run_ok hjoin, climbing_none (hstop _)]
  rw [Parser.expr, ternaryWith, bind_run_ok hbinary, bind_run_ok (at?_run _ _),
    show (before [] last).current.kind = .eof from hlast]
  rfl

end Parser

/-! ## The two texts as passages -/

/-- A name is read as itself before anything that is no part of it. -/
theorem Name.scan? (x : Name) {rest : List Char} (hrest : ∀ c ∈ rest.head?, Text.isNamePart c = false) :
    Token.scan? (x.chars ++ rest) = some (x.chars, .identifier) := by
  rw [← x.wordKind]
  exact Token.scan?_word x.starts x.goesOn hrest

/-- The assignment of a name that applies an operator to its value and a node. -/
def Node.applied (x : Name) (op : BinaryOp) (node : Node) : Node :=
  .assign ⟨x.text, none⟩ (.binary (.var x.text none) op node none) none

namespace Passage

open Reckon.Parser
open Node (applied)

variable {p : Nat → Parser Node} {segments : List Segment} {tail : List Char}

/-- Segments that are read as a node up to spans are a passage. -/
theorem exists_of_segments (target : Node) (hlegible : Segment.Legible tail segments)
    (hblank : ∀ c ∈ tail, Token.isSkipped c = true) (hsome : target.isEmpty = false)
    (hrun : ∀ {us last}, last.kind = .eof → Segment.ReadAs tail segments us →
      ∃ node b, p (2 * (before us last).size + 1) (before us last) = .ok (node, b) ∧
        b.current.kind = .eof ∧ node.bare = target.bare) :
    ∃ x : Passage p, x.text = Segment.text segments tail ∧ x.node.bare = target.bare := by
  obtain ⟨us, last, hus, hlast, hread⟩ := TokenStream.ofChars_segments "" hlegible hblank
  obtain ⟨node, b, hnode, hend, hbare⟩ := hrun hlast hread
  exact ⟨⟨segments, tail, us, last, node, hlegible, hblank, hread, (TokenStream.kind_of_ofChars hus).1,
    hlast, ⟨b, hnode, hend⟩, (Node.isEmpty_eq_of_bare hbare).trans hsome⟩, rfl, hbare⟩

/-- The passage behind one more space. -/
theorem exists_indented (hp : Portable p) (e : Passage p) :
    ∃ blanks, (∀ c ∈ blanks, Token.isSkipped c = true) ∧
      ∀ rest, Segment.text (Segment.spread blanks e.segments) rest = ' ' :: Segment.text e.segments rest := by
  obtain ⟨q, qs, t, ts, hsegments, -⟩ := e.exists_first hp
  have hblanks : ∀ c ∈ q.blanks, Token.isSkipped c = true :=
    (e.legible.of_mem (by rw [hsegments]; exact List.mem_cons_self)).1
  refine ⟨' ' :: q.blanks, List.forall_mem_cons.2 ⟨rfl, hblanks⟩, fun rest => ?_⟩
  rw [hsegments]
  rfl

variable {x : Name} {op : BinaryOp} {lead : List Char} {k : Token.Kind}

/-- The text with the sign that applies the operator. -/
theorem exists_compound (x : Name) (e : Passage expression)
    (hlead : ∀ c ∈ lead, Token.isSkipped c = true) (hassign : assignment? k = some (some op))
    (hsign : (op.symbol.toList ++ ['='], k) ∈ Token.Kind.signs) :
    ∃ m : Passage assigning,
      m.text = lead ++ (x.chars ++ (' ' :: (op.symbol.toList ++ ['=']) ++ ' ' :: e.text)) ∧
      m.node.bare = (applied x op e.node).bare := by
  obtain ⟨blanks, hblanks, htext⟩ := e.exists_indented portable_expression
  have hbreaks := Text.breaks_of_blank e.blank
  have hspread : Segment.Legible e.tail (Segment.spread blanks e.segments) :=
    (e.legible.of_breaks hbreaks fun _ hc => by cases hc).spread hblanks hbreaks
  have hlegible : Segment.Legible e.tail
      (⟨lead, .identifier, x.chars⟩ :: ⟨[' '], k, op.symbol.toList ++ ['=']⟩ ::
        Segment.spread blanks e.segments) := by
    refine .cons hlead (x.scan? ?_) (.cons (List.forall_mem_singleton.2 rfl) ?_ hspread)
    · rintro c ⟨⟩
      decide
    · rw [htext]
      refine Token.scan?_sign hsign ?_
      rintro c ⟨⟩
      decide
  obtain ⟨m, hm, hnode⟩ := exists_of_segments (p := assigning) (applied x op e.node) hlegible e.blank
    rfl fun {us last} hlast hread => by
      obtain ⟨t, us, rfl, ht, htx, hread⟩ := hread.exists_cons
      obtain ⟨u, us, rfl, hu, -, hread⟩ := hread.exists_cons
      rw [← List.append_nil (Segment.spread blanks e.segments)] at hread
      have hsize : 2 * (before us last).size + 1 ≤ 2 * (before (t :: u :: us) last).size + 1 := by
        rw [Ahead.size_before, Ahead.size_before, List.length_cons, List.length_cons]
        omega
      obtain ⟨node, vs, hrun, hbare, hvs⟩ :=
        e.read portable_expression (Segment.stops_nil e.tail) hread hlast hsize
      cases hvs
      have hsome : node.isEmpty = false := (Node.isEmpty_eq_of_bare hbare).trans e.not_empty
      refine ⟨_, _, assignment_run_compound ht (by rw [hu]; exact hassign) hrun hsome, hlast, ?_⟩
      simp only [applied, Node.bare, Identifier.bare, hbare, htx]
      rfl
  refine ⟨m, hm.trans ?_, hnode⟩
  rw [Segment.text, Segment.text, htext]
  simp [text]

/-- The text with the operator and the parentheses. -/
theorem exists_parenthesized (x : Name) (e : Passage expression)
    (hlead : ∀ c ∈ lead, Token.isSkipped c = true) (hoperator : BinaryOp.ofKind? k = some op)
    (hsign : (op.symbol.toList, k) ∈ Token.Kind.signs) :
    ∃ m : Passage assigning,
      m.text = lead ++ (x.chars ++ (' ' :: '=' :: ' ' :: x.chars ++ (' ' :: op.symbol.toList ++
        (' ' :: '(' :: e.text ++ [')'])))) ∧
      m.node.bare = (applied x op e.node).bare := by
  have hclose : Segment.Legible [] (e.segments ++ [⟨e.tail, .rparen, [')']⟩]) := by
    refine .append (e.legible.of_breaks (Text.breaks_of_blank e.blank) ?_) (.cons e.blank rfl .nil)
    refine Text.breaks_append e.blank ?_
    rintro c ⟨⟩
    decide
  have hspace : ∀ cs : List Char, ∀ c ∈ (' ' :: cs).head?, Text.isNamePart c = false := by
    rintro cs c ⟨⟩
    decide
  have hblank : ∀ c ∈ [' '], Token.isSkipped c = true := List.forall_mem_singleton.2 rfl
  have hlegible : Segment.Legible []
      (⟨lead, .identifier, x.chars⟩ :: ⟨[' '], .assign, ['=']⟩ :: ⟨[' '], .identifier, x.chars⟩ ::
        ⟨[' '], k, op.symbol.toList⟩ :: ⟨[' '], .lparen, ['(']⟩ ::
        (e.segments ++ [⟨e.tail, .rparen, [')']⟩])) := by
    refine .cons hlead (x.scan? (hspace _)) (.cons hblank rfl (.cons hblank (x.scan? (hspace _))
      (.cons hblank (Token.scan?_sign hsign ?_) (.cons hblank rfl hclose))))
    rintro c ⟨⟩
    decide
  obtain ⟨m, hm, hnode⟩ := exists_of_segments (p := assigning) (applied x op e.node) hlegible
    (fun _ hc => by cases hc) rfl fun {us last} hlast hread => by
      obtain ⟨t, us, rfl, ht, htx, hread⟩ := hread.exists_cons
      obtain ⟨u, us, rfl, hu, -, hread⟩ := hread.exists_cons
      obtain ⟨v, us, rfl, hv, hvx, hread⟩ := hread.exists_cons
      obtain ⟨w, us, rfl, hw, -, hread⟩ := hread.exists_cons
      obtain ⟨l, us, rfl, hl, -, hread⟩ := hread.exists_cons
      obtain ⟨n, hn, hsize⟩ : ∃ n, 2 * (before (t :: u :: v :: w :: l :: us) last).size + 1 = n + 2 ∧
          2 * (before us last).size + 1 ≤ n := by
        refine ⟨2 * us.length + 11, ?_, ?_⟩ <;> rw [Ahead.size_before]
        · simp only [List.length_cons]
          omega
        · omega
      obtain ⟨node, vs, hrun, hbare, hvs⟩ :=
        e.read_here portable_expression (Segment.stops_rparen e.tail [] []) hread hlast hsize
      obtain ⟨r, vs, rfl, hr, -, hvs⟩ := hvs.exists_cons
      cases hvs
      have hsome : node.isEmpty = false := (Node.isEmpty_eq_of_bare hbare).trans e.not_empty
      have hvalue := expr_run_applied hv (by rw [hw]; exact hoperator) (factor_paren hl hrun hr hsome) hsome
        hlast
      rw [hn]
      refine ⟨_, _, assignment_run_plain ht hu hvalue rfl, hlast, ?_⟩
      simp only [applied, Node.bare, Identifier.bare, hbare, htx, hvx]
      rfl
  refine ⟨m, hm.trans ?_, hnode⟩
  have hclosed : Segment.text (e.segments ++ [⟨e.tail, .rparen, [')']⟩]) [] = e.text ++ [')'] := by
    rw [Segment.text_append, Segment.text_eq_append, text_eq_append, List.append_assoc]
    rfl
  simp only [Segment.text, hclosed, List.cons_append, List.nil_append]

end Passage

/-! ## The two texts -/

/-- The operators that a sign of assignment can apply. -/
theorem BinaryOp.exists_signs {op : BinaryOp} (hop : op ∈ [.add, .sub, .mul, .div]) :
    ∃ k k', assignment? k' = some (some op) ∧ BinaryOp.ofKind? k = some op ∧
      (op.symbol.toList, k) ∈ Token.Kind.signs ∧ (op.symbol.toList ++ ['='], k') ∈ Token.Kind.signs := by
  simp only [List.mem_cons, List.not_mem_nil, or_false] at hop
  obtain rfl | rfl | rfl | rfl := hop
  · exact ⟨.plus, .plusAssign, by decide⟩
  · exact ⟨.minus, .minusAssign, by decide⟩
  · exact ⟨.star, .starAssign, by decide⟩
  · exact ⟨.slash, .slashAssign, by decide⟩

namespace Program

open Node (applied)

/-- **What a sign of assignment applies.**  Where the text of an expression stands behind `x += `, or behind
the sign of another operator, the program is the one with `x = x + (` before the text and `)` behind it, up to
spans, whatever assignments stand before and behind it with commas between them.  In every scope both have the
same results, or fail for the same cause, and leave the same variables and functions. -/
theorem runIn_compound {file e : String} {node : Node} {op : BinaryOp} (x : Name) (lead : String)
    (ms ms' : List (String × Node)) (hop : op ∈ [.add, .sub, .mul, .div]) (he : Solitary file e node)
    (hnode : node.isAssignment = false) (hlead : ∀ c ∈ lead.toList, Token.isSkipped c = true)
    (hothers : ∀ m ∈ ms ++ ms', Solitary file m.1 m.2 ∧ m.2.isAssignment = true) :
    let chain (member : String) := ",".intercalate (ms.map Prod.fst ++ member :: ms'.map Prod.fst)
    let compound := chain (lead ++ x.text ++ " " ++ op.symbol ++ "= " ++ e)
    let plain := chain (lead ++ x.text ++ " = " ++ x.text ++ " " ++ op.symbol ++ " (" ++ e ++ ")")
    (∃ p q, Node.parse file compound = .ok p ∧ Node.parse file plain = .ok q ∧ p.bare = q.bare ∧
      p.bare = (Node.block (ms.map Prod.snd ++ applied x op node :: ms'.map Prod.snd) none).bare) ∧
    ∀ outer m, Run.bare (runIn outer file compound m) = Run.bare (runIn outer file plain m) := by
  intro chain compound plain
  obtain ⟨k, k', hassign, hoperator, hsign, hsign'⟩ := BinaryOp.exists_signs hop
  obtain ⟨e', rfl, htext⟩ := he.exists_expression hnode
  have hblock : ∀ {y : Passage Parser.assigning} {member : String}, y.text = member.toList →
      y.node.bare = (applied x op e'.node).bare → ∃ p, Node.parse file (chain member) = .ok p ∧
        p.bare = (Node.block (ms.map Prod.snd ++ applied x op e'.node :: ms'.map Prod.snd) none).bare := by
    intro y member hy hbare
    obtain ⟨nodes, span, hparse, hbares⟩ := Solitary.parse_between hothers hy
    refine ⟨_, hparse, ?_⟩
    simp only [Node.bare, Node.bareList_eq_map, hbares, List.map_append, List.map_cons, hbare]
  obtain ⟨y, hy, hynode⟩ := Passage.exists_compound x e' hlead hassign hsign'
  obtain ⟨z, hz, hznode⟩ := Passage.exists_parenthesized x e' hlead hoperator hsign
  obtain ⟨p, hp, hpbare⟩ : ∃ p, Node.parse file compound = .ok p ∧ _ :=
    hblock (hy.trans (by simp [htext, Name.text])) hynode
  obtain ⟨q, hq, hqbare⟩ : ∃ q, Node.parse file plain = .ok q ∧ _ :=
    hblock (hz.trans (by simp [htext, Name.text])) hznode
  have hpq : p.bare = q.bare := hpbare.trans hqbare.symm
  refine ⟨⟨p, q, hp, hq, hpq, hpbare⟩, fun outer m => ?_⟩
  rw [runIn, runIn, hp, hq]
  exact evaluate_congr hpq outer m

/-- A conditional, which binds weaker than the operator, between two other assignments. -/
theorem runIn_compound_conditional :
    (∃ node, Solitary "<input>" "y && z ? !y : y || z" node ∧ node.isAssignment = false) ∧
      (∃ p q, Node.parse "<input>" "a = y, x *= y && z ? !y : y || z, b -= a" = .ok p ∧
        Node.parse "<input>" "a = y, x = x * (y && z ? !y : y || z), b -= a" = .ok q ∧ p.bare = q.bare) ∧
      ∀ outer m, Run.bare (runIn outer "<input>" "a = y, x *= y && z ? !y : y || z, b -= a" m) =
        Run.bare (runIn outer "<input>" "a = y, x = x * (y && z ? !y : y || z), b -= a" m) := by
  let x : Name := ⟨'x', [], rfl, fun _ hc => (by cases hc), by decide⟩
  have hvalue : ∃ node, Solitary "<input>" "y && z ? !y : y || z" node ∧ node.isAssignment = false :=
    ⟨_, ⟨⟨_, rfl⟩, by decide +kernel, by decide +kernel⟩, rfl⟩
  have hassigns : ∀ text ∈ ["a = y", " b -= a"],
      ∃ node, Solitary "<input>" text node ∧ node.isAssignment = true :=
    List.forall_mem_cons.2 ⟨⟨_, ⟨⟨_, rfl⟩, by decide +kernel, by decide +kernel⟩, rfl⟩,
      List.forall_mem_singleton.2 ⟨_, ⟨⟨_, rfl⟩, by decide +kernel, by decide +kernel⟩, rfl⟩⟩
  obtain ⟨e, he, hnode⟩ := hvalue
  obtain ⟨a, ha⟩ := hassigns "a = y" (by decide)
  obtain ⟨b, hb⟩ := hassigns " b -= a" (by decide)
  have hmul : BinaryOp.mul ∈ [.add, .sub, .mul, .div] := by decide
  have hcompound : ",".intercalate ["a = y", " " ++ x.text ++ " " ++ BinaryOp.mul.symbol ++ "= " ++
      "y && z ? !y : y || z", " b -= a"] = "a = y, x *= y && z ? !y : y || z, b -= a" := by decide +kernel
  have hplain : ",".intercalate ["a = y", " " ++ x.text ++ " = " ++ x.text ++ " " ++
      BinaryOp.mul.symbol ++ " (" ++ "y && z ? !y : y || z" ++ ")", " b -= a"] =
        "a = y, x = x * (y && z ? !y : y || z), b -= a" := by decide +kernel
  rw [← hcompound, ← hplain]
  obtain ⟨⟨p, q, hp, hq, hbare, -⟩, hrun⟩ := runIn_compound x " " [("a = y", a)] [(" b -= a", b)] hmul he
    hnode (List.forall_mem_singleton.2 rfl) (List.forall_mem_cons.2 ⟨ha, List.forall_mem_singleton.2 hb⟩)
  exact ⟨⟨e, he, hnode⟩, ⟨p, q, hp, hq, hbare⟩, hrun⟩

end Program

end Reckon
