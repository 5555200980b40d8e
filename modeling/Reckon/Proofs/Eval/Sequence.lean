import Reckon.Proofs.Eval.Spanless
import Reckon.Proofs.Parsing.Joined

/-!
# Running one program after the other

Running two texts one after the other in the same scope is the same as running them as one text, with a
newline between them (`runIn_join`).  The texts are read as the same statements, up to their spans, and
spans only say where errors are (`evaluate_congr`).  The statements of a block are evaluated in order,
and the first one that fails ends the block, whether it belongs to the first text or to the second.

What runs leave behind is compared without spans as well: a function that was defined keeps its body,
with the spans of the text it was read from.
-/

namespace Reckon.Program

open Eval

/-- Runs one after the other, the second one if the first succeeds; together they give the values of
both. -/
def inOrder (first second : Machine → Run) (m : Machine) : Run :=
  match first m with
  | (.error e, m') => (.error e, m')
  | (.ok r, m') =>
    match second m' with
    | (.error e, m'') => (.error e, m'')
    | (.ok r', m'') => (.ok (.compound (r.values ++ r'.values)), m'')

theorem eval_block (depth : Nat) (outer : Scope) (cs : List Node) (span : Option Span) (m : Machine) :
    eval (depth + 1) outer (.block cs span) m =
      match cs.mapM (eval depth outer) m with
      | (.ok rs, m') => (.ok (.compound (rs.flatMap Result.values)), m')
      | (.error e, m') => (.error (e.locate span), m') := by
  rw [eval, located_run, Eval.step, bind_run]
  rcases cs.mapM (eval depth outer) m with ⟨e | rs, m'⟩ <;> rfl

/-- The statements of a block run in order. -/
theorem evaluate_append (outer : Scope) (cs ds : List Node) (s t u : Option Span) (m : Machine) :
    Run.bare (evaluate outer (.block (cs ++ ds) u) m) =
      Run.bare (inOrder (evaluate outer (.block cs s)) (evaluate outer (.block ds t)) m) := by
  have hblock : ∀ (cs : List Node) (s : Option Span) (m : Machine),
      evaluate outer (.block cs s) m = _ := eval_block (maxDepth - 1) outer
  unfold inOrder
  rw [hblock, hblock, List.mapM_append, bind_run]
  rcases hfirst : cs.mapM (eval (maxDepth - 1) outer) m with ⟨e | rs, m₁⟩
  · simp only [Run.bare, Except.mapError, Failure.bare_locate]
  · dsimp only
    rw [hblock, bind_run]
    rcases hsecond : ds.mapM (eval (maxDepth - 1) outer) m₁ with ⟨e | rs', m₂⟩
    · simp only [Run.bare, Except.mapError, Failure.bare_locate]
    · simp only [pure_run, List.flatMap_append, Result.values]

/-- **Sequential composition.**  Two texts that are programs, with a newline between them, are a program
with the children of both, up to spans.  In every scope it does what the first one and then the second
one do: it gives the values of both, or the error of the one that fails, and leaves the same variables
and functions. -/
theorem runIn_join {file first second : String} {p q : Node} (hp : Node.parse file first = .ok p)
    (hq : Node.parse file second = .ok q) :
    ∃ cs ds es s t u, p = .block cs s ∧ q = .block ds t ∧
      Node.parse file (first ++ "\n" ++ second) = .ok (.block es u) ∧
      es.map Node.bare = cs.map Node.bare ++ ds.map Node.bare ∧
      ∀ outer m, Run.bare (runIn outer file (first ++ "\n" ++ second) m) =
        Run.bare (inOrder (runIn outer file first) (runIn outer file second) m) := by
  obtain ⟨cs, ds, es, s, t, u, rfl, rfl, hjoin, hes⟩ := Node.parse_join hp hq
  refine ⟨cs, ds, es, s, t, u, rfl, rfl, hjoin, hes, fun outer m => ?_⟩
  have hbare : (Node.block es u).bare = (Node.block (cs ++ ds) none).bare := by
    simp only [Node.bare, Node.bareList_eq_map, hes, List.map_append]
  have hrun : ∀ {source : String} {program : Node}, Node.parse file source = .ok program →
      runIn outer file source = evaluate outer program := by
    intro source program h
    funext m
    rw [runIn, h]
  rw [hrun hjoin, hrun hp, hrun hq]
  exact (evaluate_congr hbare outer m).trans (evaluate_append outer cs ds s t none m)

/-- The second text calls a function that the first one defines, and then fails. -/
theorem runIn_join_fails : ∃ p q : Node,
    Node.parse "<input>" "f(x) = \x7b\n  y = x\n  !y\n\x7d\n" = .ok p ∧
    Node.parse "<input>" "f(true)\n\nf(true) && y" = .ok q ∧
    Run.bare (runIn [] "<input>" ("f(x) = \x7b\n  y = x\n  !y\n\x7d\n" ++ "\n" ++
        "f(true)\n\nf(true) && y") fresh) =
      Run.bare (inOrder (runIn [] "<input>" "f(x) = \x7b\n  y = x\n  !y\n\x7d\n")
        (runIn [] "<input>" "f(true)\n\nf(true) && y") fresh) := by
  obtain ⟨p, hp⟩ := Node.exists_parse_of_toBool (by decide +kernel :
    (Node.parse "<input>" "f(x) = \x7b\n  y = x\n  !y\n\x7d\n").toBool = true)
  obtain ⟨q, hq⟩ := Node.exists_parse_of_toBool (by decide +kernel :
    (Node.parse "<input>" "f(true)\n\nf(true) && y").toBool = true)
  obtain ⟨_, _, _, _, _, _, -, -, -, -, hrun⟩ := runIn_join hp hq
  exact ⟨p, q, hp, hq, hrun [] fresh⟩

end Reckon.Program
