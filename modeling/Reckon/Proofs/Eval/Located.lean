import Reckon.Eval.Program
import Reckon.Proofs.Eval.Guarded
import Reckon.Proofs.Lexing.Lossless
import Reckon.Proofs.Parsing.Traced
import Reckon.Proofs.Parsing.WellFormed

/-!
# Every error points into the program

Operators and native functions know no places; an error of theirs gets the place of the innermost node
around it (`Eval.located`).  In a program that was parsed every node has a place, so none of these errors
stays without one, and none gets a place that is not that of a node (`Node.guarded_pointing`).  The
bodies of functions are no exception, although they run when the place where they stand has long been
passed: they are nodes of the program as well.

The places of nodes and of refusals start where tokens start, or where the text ends, or at the character
that starts no token.  Each of these is an offset of the text, and so has a line and a column there
(`Program.error_located`).
-/

namespace Reckon

open Eval

/-! ## Failures without a place -/

/-- The failure is no error that has a place. -/
def Failure.Unplaced : Failure → Prop
  | .reported e => e.span = none
  | .mishap _ => True

@[simp]
theorem Failure.unplaced_ofCause (c : Cause) : (Failure.ofCause c).Unplaced := rfl

@[simp]
theorem Failure.unplaced_mishap (c : Mishap) : (Failure.mishap c).Unplaced := trivial

/-- Nothing is said about a result, and a failure has no place. -/
abbrev Unplaced {α : Type} : Except Failure α → Prop :=
  Outcome (fun _ => True) Failure.Unplaced

namespace BinaryOp

theorem matrixResult_unplaced (left right : Dims) (exponent : Float)
    (x : Except (Matrix.Fault Number.SumFault) (Matrix Float)) :
    Unplaced ((x.mapError (matrixFailure left right exponent)).map Value.matrix) := by
  cases x with
  | ok m => trivial
  | error fault => cases fault <;> simp [Except.mapError, Except.map, matrixFailure]

/-- No operator gives its errors a place. -/
theorem apply_unplaced (op : BinaryOp) (left right : Value) : Unplaced (op.apply left right) := by
  have h := op.apply_yields left right
  generalize op.apply left right = r at h ⊢
  cases h with
  | number | truth | map => trivial
  | entrywise =>
    unfold entrywise
    split <;> simp
  | product => exact matrixResult_unplaced _ _ _ _
  | power => exact matrixResult_unplaced _ _ _ _
  | refused c => exact Failure.unplaced_ofCause c
  | mishap c => exact Failure.unplaced_mishap c

end BinaryOp

theorem UnaryOp.apply_unplaced (op : UnaryOp) (v : Value) : Unplaced (op.apply v) := by
  cases op with
  | plus => trivial
  | minus => exact BinaryOp.apply_unplaced .mul v _
  | not => cases v <;> simp [UnaryOp.apply]

namespace Builtin

theorem shaped_unplaced (m : Option (Matrix Float)) : Unplaced (shaped m) := by
  cases m <;> simp [shaped]

theorem matrixArgument_unplaced (function : String) (v : Value) :
    Unplaced (matrixArgument function v) := by
  cases v <;> simp [matrixArgument]

theorem numberArgument_unplaced (function : String) (v : Value) :
    Unplaced (numberArgument function v) := by
  unfold numberArgument
  split <;> simp

/-- No native function gives its errors a place. -/
theorem apply_unplaced (b : Builtin) (v : Value) : Unplaced (b.apply v) := by
  cases b with
  | transpose | trans | rref =>
    exact (matrixArgument_unplaced _ v).bind fun m _ => shaped_unplaced _
  | det | determinant =>
    refine (matrixArgument_unplaced _ v).bind fun m _ => ?_
    split <;> simp
  | sqrt =>
    refine (numberArgument_unplaced _ v).bind fun x _ => ?_
    split <;> simp

end Builtin

/-! ## Evaluations of a program -/

/-- An error has the place of one of these nodes. -/
def Failure.PointsTo (N : Node → Prop) : Failure → Prop
  | .reported e => ∃ n s, N n ∧ n.span = some s ∧ e.span = some s
  | .mishap _ => True

section PointsTo

variable {N : Node → Prop} {n : Node}

/-- A complaint at a node. -/
theorem Failure.PointsTo.placed (hspanned : ∀ n, N n → n.span.isSome = true) (hn : N n)
    (cause : Cause) : (Failure.placed cause n.span).PointsTo N := by
  obtain ⟨s, hs⟩ := Option.isSome_iff_exists.1 (hspanned n hn)
  exact ⟨n, s, hn, hs, hs⟩

/-- A failure that has no place gets that of the node around it. -/
theorem Failure.PointsTo.of_unplaced (hspanned : ∀ n, N n → n.span.isSome = true) (hn : N n)
    {f : Failure} (hf : f.Unplaced) : (f.locate n.span).PointsTo N := by
  cases f with
  | mishap c => trivial
  | reported e =>
    have hlocate : e.locate n.span = ⟨e.cause, n.span⟩ := by
      have hspan : e.span = none := hf
      unfold Error.locate
      rw [hspan]
    show (Failure.reported (e.locate n.span)).PointsTo N
    rw [hlocate]
    exact placed hspanned hn e.cause

/-- One that has a place keeps it. -/
theorem Failure.PointsTo.locate {f : Failure} (hf : f.PointsTo N) (s : Option Span) :
    (f.locate s).PointsTo N := by
  cases f with
  | mishap c => trivial
  | reported e =>
    obtain ⟨n, t, hn, hspan, he⟩ := hf
    have hlocate : e.locate s = e := by
      unfold Error.locate
      rw [he]
    show (Failure.reported (e.locate s)).PointsTo N
    rw [hlocate]
    exact ⟨n, t, hn, hspan, he⟩

/-- What operators and functions report gets the place of the node that they stand in. -/
theorem Outcome.pointsTo {α : Type} {r : Except Failure α} (h : Unplaced r)
    (hspanned : ∀ n, N n → n.span.isSome = true) (hn : N n) :
    Outcome (fun _ => True) (fun e => (e.locate n.span).PointsTo N) r :=
  h.mono (fun _ ha => ha) fun _ he => .of_unplaced hspanned hn he

/-- Nodes that all have places, with their parts and bodies, report errors at such nodes. -/
theorem Guarded.pointing (hparts : ∀ n, N n → ∀ e ∈ n.parts, N e)
    (hbody : ∀ name ps body bs s, N (.define name ps body bs s) → N (.block body bs))
    (hspanned : ∀ n, N n → n.span.isSome = true) :
    Guarded N (fun _ => True) (Failure.PointsTo N) where
  parts := hparts
  body := hbody
  literal _ _ _ := trivial
  binary _ op _ _ hn x y _ _ := (op.apply_unplaced x y).pointsTo hspanned hn
  unary op _ _ hn x _ := (op.apply_unplaced x).pointsTo hspanned hn
  matrix _ _ hn _ _ _ := (Builtin.shaped_unplaced _).pointsTo hspanned hn
  native _ _ _ hn b x _ := (b.apply_unplaced x).pointsTo hspanned hn
  complaint _ cause hn _ := .placed hspanned hn cause
  locate _ s he := he.locate s
  tooDeep := trivial

/-- The nodes of a well-formed program report errors at nodes of the program. -/
theorem Node.guarded_pointing {program : Node} (hformed : program.Formed) :
    Guarded (fun n => ∃ around, program.Stands around n) (fun _ => True)
      (Failure.PointsTo fun n => ∃ around, program.Stands around n) := by
  refine .pointing ?_ ?_ ?_
  · rintro n ⟨around, hn⟩ e he
    exact ⟨around, .part hn he⟩
  · rintro name ps body bs s ⟨around, hn⟩
    exact ⟨name :: around, .body hn⟩
  · rintro n ⟨around, hn⟩
    exact (hformed around n hn).spanned

end PointsTo

/-! ## Places of a text -/

/-- The place of an offset of a text. -/
def Text.Offset (file : String) (source : List Char) (place : String × Int × Int) : Prop :=
  ∃ p, place = (file, (lineAt source p : Int), (columnAt source p : Int))

/-- Every token of a text starts at an offset of it, and so does the end of input. -/
theorem TokenStream.offset_of_ofChars (file : String) (source : List Char) :
    (∀ t ∈ (ofChars file source).tokens, Text.Offset file source t.span.start) ∧
    (∀ t, (ofChars file source).ending = .ok t → Text.Offset file source t.span.start) ∧
    ∀ e, (ofChars file source).ending = .error e →
      e.cause.isEvaluation = false ∧ Known (Text.Offset file source) e.span := by
  obtain ⟨p, hcovers, hcloses⟩ := ofChars_covers file source
  refine ⟨fun t ht => ?_, fun t hend => ?_, fun e hend => ?_⟩
  · have hexact := hcovers.exact_of_mem ht
    refine ⟨t.offset, ?_⟩
    rw [Span.start, hexact.file, hexact.startLine, hexact.startCol]
  · rw [hend] at hcloses
    obtain ⟨-, hatEnd⟩ := hcloses
    refine ⟨source.length, ?_⟩
    rw [Span.start, hatEnd.file, hatEnd.startLine, hatEnd.startCol]
  · rw [hend] at hcloses
    obtain ⟨c, hstray⟩ := hcloses
    rw [hstray.cause, hstray.span]
    exact ⟨rfl, .of_start ⟨p, rfl⟩⟩

/-- What is known of the places of a text that parses, and of the error of one that does not. -/
theorem Node.parse_places (file source : String) :
    (∀ program, parse file source = .ok program →
      program.Traced (Text.Offset file source.toList)) ∧
    ∀ e, parse file source = .error e →
      e.cause.isEvaluation = false ∧ Known (Text.Offset file source.toList) e.span := by
  obtain ⟨htokens, hending, hstray⟩ := TokenStream.offset_of_ofChars file source.toList
  obtain ⟨hok, herror⟩ := traced_of_tokens htokens hending
  refine ⟨hok, fun e he => ?_⟩
  rcases herror e he with hend | ⟨fault, hcause, hplace⟩
  · exact hstray e hend
  · rw [hcause]
    exact ⟨rfl, hplace⟩

namespace Program

variable {file source : String} {e : Error}

/-- An error of a run is one of parsing, or it points at a node of the program. -/
theorem run_reported (h : (run file source).1 = .error (.reported e)) :
    Node.parse file source = .error e ∨
      ∃ program, Node.parse file source = .ok program ∧ ∃ around n s,
        program.Stands around n ∧ n.span = some s ∧ e.span = some s := by
  unfold run at h
  cases hparse : Node.parse file source with
  | error e' =>
    rw [hparse] at h
    cases h
    exact .inl rfl
  | ok program =>
    rw [hparse] at h
    have hguarded := Node.guarded_pointing (Node.wellFormed_of_parse hparse).formed
    obtain ⟨-, herror⟩ := hguarded.eval maxDepth [] program ⟨[], .root⟩
      (fun f hf => absurd hf List.not_mem_nil) fresh Frame.Holds.global
    obtain ⟨n, s, ⟨around, hn⟩, hspan, he⟩ := (herror (.reported e) _ (Prod.ext h rfl)).1
    exact .inr ⟨program, rfl, around, n, s, hn, hspan, he⟩

/-- **Every error points into the program.**  An error that a run reports has a place in the text that
was run, and the place starts on a line of that text, at one of its characters or right behind the last
one.  An error of the evaluation has the place of a node of the program. -/
theorem error_located (h : (run file source).1 = .error (.reported e)) :
    ∃ s, e.span = some s ∧ s.file = file ∧
      (1 ≤ s.startLine ∧ s.startLine ≤ 1 + source.toList.count '\n') ∧
      (∃ line, (Text.lines source.toList)[(s.startLine - 1).toNat]? = some line ∧
        1 ≤ s.startCol ∧ s.startCol ≤ line.length + 1) ∧
      (e.cause.isEvaluation = true → ∃ program, Node.parse file source = .ok program ∧
        ∃ around n, program.Stands around n ∧ n.span = some s) := by
  obtain ⟨hok, herror⟩ := Node.parse_places file source
  -- In both cases the place is that of an offset.
  have hplace : ∃ s, e.span = some s ∧ Text.Offset file source.toList s.start ∧
      (e.cause.isEvaluation = true → ∃ program, Node.parse file source = .ok program ∧
        ∃ around n, program.Stands around n ∧ n.span = some s) := by
    rcases run_reported h with hparse | ⟨program, hparse, around, n, s, hn, hspan, he⟩
    · obtain ⟨hcause, s, hs, hoffset⟩ := herror e hparse
      refine ⟨s, hs, hoffset, fun heval => ?_⟩
      rw [hcause] at heval
      cases heval
    · obtain ⟨t, ht, hoffset⟩ := (hok program hparse around n hn).place
      rw [hspan] at ht
      cases ht
      exact ⟨s, he, hoffset, fun _ => ⟨program, hparse, around, n, hn, hspan⟩⟩
  obtain ⟨s, hs, ⟨p, hstart⟩, hnode⟩ := hplace
  rw [Span.start, Prod.mk.injEq, Prod.mk.injEq] at hstart
  obtain ⟨hfile, hline, hcol⟩ := hstart
  obtain ⟨line, hget, hcolumn⟩ := Text.columnAt_le source.toList p
  have hle := Text.lineAt_le source.toList p
  have hindex : (s.startLine - 1).toNat = Text.lineAt source.toList p - 1 := by omega
  refine ⟨s, hs, hfile, ⟨?_, ?_⟩, ⟨line, hindex ▸ hget, ?_, ?_⟩, hnode⟩
  · rw [hline, Text.lineAt]
    omega
  · omega
  · rw [hcol, Text.columnAt]
    omega
  · omega

/-- The variable that is missing when the function is called on the second line stands on the first
one. -/
theorem error_located_in_body :
    ∃ e, (run "<input>" "f(x) = y\nf(true)").1 = .error (.reported e) ∧
      e.cause.isEvaluation = true ∧ ∃ s, e.span = some s ∧ s.file = "<input>" ∧
        ∃ program, Node.parse "<input>" "f(x) = y\nf(true)" = .ok program ∧
          ∃ around n, program.Stands around n ∧ n.span = some s := by
  have hrun : (reported? (run "<input>" "f(x) = y\nf(true)").1).any (·.cause.isEvaluation) = true := by
    decide +kernel
  obtain ⟨e, he, hcause⟩ := (Option.any_eq_true _ _).1 hrun
  have he := reported?_eq_some_iff.1 he
  obtain ⟨s, hs, hfile, -, -, hnode⟩ := error_located he
  exact ⟨e, he, hcause, s, hs, hfile, hnode hcause⟩

end Program

end Reckon
