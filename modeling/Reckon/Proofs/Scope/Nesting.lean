import Reckon.Eval.Program
import Reckon.Proofs.Eval.Kept

/-!
# Scopes mirror the nesting of definitions

A function does not keep the frame it was defined in.  A call looks the name up from the caller's frame
outwards, and the body runs inside the frame where the function was found.  Even so, whenever a node is
evaluated, the frames of the scope are named for the definitions around the node, with the global frame
last (`Program.scope_mirrors_nesting`): recursion, redefinition and shadowing make no difference.

For this, every function in every frame has to come from a definition that stands where the frame's own
chain of names says (`Placed`).  Evaluating a node adds functions to the frame only from definitions
that are part of the node, and these stand where the node stands; so this is kept (`Kept`), and it holds
of whatever an evaluation starts (`Visit.Sited`).
-/

namespace Reckon

open Eval

/-- The session has a definition of this function that stands where the chain of names says. -/
def Defined (session : List Node) (chain : List String) (name : String) (body : List Node)
    (bodySpan : Option Span) : Prop :=
  ∃ program ∈ session, ∃ around params span,
    program.Stands around (.define name params body bodySpan span) ∧ chain = around ++ ["global"]

/-- Every function that a program of the session defined is in a frame whose chain of names, from there
outwards, says where the definition stands. -/
def Placed (session : List Node) : Scope → Prop
  | [] => True
  | f :: outer =>
    (∀ name params body bodySpan, (name, Function.user params body bodySpan) ∈ f.functions →
      Defined session ((f :: outer).map Frame.name) name body bodySpan) ∧ Placed session outer

namespace Placed

variable {session : List Node} {f : Frame} {outer home : Scope} {name : String}

/-- A frame without functions. -/
theorem of_functions_nil (hf : f.functions = []) (h : Placed session outer) :
    Placed session (f :: outer) := by
  refine ⟨fun name params body bodySpan hmem => ?_, h⟩
  rw [hf] at hmem
  cases hmem

theorem assign (h : Placed session (f :: outer)) (x : String) (v : Value) :
    Placed session (f.assign x v :: outer) :=
  h

theorem define (h : Placed session (f :: outer)) {params : List String} {body : List Node}
    {bodySpan : Option Span}
    (hd : Defined session ((f :: outer).map Frame.name) name body bodySpan) :
    Placed session (f.define name (.user params body bodySpan) :: outer) := by
  refine ⟨fun name' params' body' bodySpan' hmem => ?_, h.2⟩
  rcases Bindings.mem_set hmem with heq | hmem
  · cases heq
    exact hd
  · exact h.1 name' params' body' bodySpan' hmem

/-- A function that is found was defined where it is found. -/
theorem findFunction? {s : Scope} (h : Placed session s) {params : List String} {body : List Node}
    {bodySpan : Option Span} (hfound : s.findFunction? name = some (.user params body bodySpan, home)) :
    Placed session home ∧ Defined session (home.map Frame.name) name body bodySpan := by
  induction s with
  | nil => cases hfound
  | cons f outer ih =>
    unfold Scope.findFunction? at hfound
    split at hfound
    · rename_i g hg
      cases hfound
      exact ⟨h, h.1 name params body bodySpan (Bindings.mem_of_get? hg)⟩
    · exact ih h.2 hfound

/-- At the start there are native functions only. -/
theorem global (session : List Node) : Placed session [Frame.global] := by
  refine ⟨fun name params body bodySpan hmem => ?_, trivial⟩
  obtain ⟨b, hb⟩ := Frame.native_of_mem_global hmem
  cases hb

end Placed

/-! ## Evaluations -/

/-- The frames of the scope are named for the definitions around a place. -/
def Named (around : List String) (s : Scope) : Prop :=
  s.map Frame.name = around ++ ["global"]

/-- Evaluating nodes that stand at a place keeps both: the names of the frames say where it is, and so
do those of the functions. -/
theorem kept_placed {session : List Node} {program : Node} (hprogram : program ∈ session)
    (around : List String) (outer : Scope) :
    Kept (program.Stands around) fun f => Named around (f :: outer) ∧ Placed session (f :: outer) where
  parts _ hn _ he := .part hn he
  assign _ x v hp := ⟨hp.1, hp.2.assign x v⟩
  define _ params _ _ span _ hn hp :=
    ⟨hp.1, hp.2.define ⟨program, hprogram, around, params, span, hn, hp.1⟩⟩

namespace Visit

/-- The node to evaluate stands in a program of the session where the scope says. -/
structure Sited (session : List Node) (v : Visit) : Prop where
  stands : ∃ program ∈ session, ∃ around,
    program.Stands around v.node ∧ Named around (v.machine.frame :: v.outer)
  placed : Placed session (v.machine.frame :: v.outer)

variable {session : List Node} {v w : Visit}

/-- What an evaluation starts is sited if it is itself. -/
theorem Sited.starts (h : v.Sited session) (hs : Starts v w) : w.Sited session := by
  obtain ⟨program, hprogram, around, hstands, hnamed⟩ := h.stands
  have hkept := kept_placed hprogram around v.outer
  have hpart : ∀ e ∈ v.node.parts, Eval.Keeps
      (fun f => Named around (f :: v.outer) ∧ Placed session (f :: v.outer))
      (eval w.depth v.outer e) := fun e he => hkept.eval _ _ (hkept.parts _ hstands e he)
  rcases hs.part_or_body with ⟨hmem, houter, hframe⟩ |
    ⟨name, args, span, vs, m₁, params, body, bodySpan, hcall, hargs, hfound, hnode, hmachine⟩
  · obtain ⟨hnamed', hplaced'⟩ := hframe _ hpart ⟨hnamed, h.placed⟩
    rw [← houter] at hnamed' hplaced'
    exact ⟨⟨program, hprogram, around, .part hstands hmem, hnamed'⟩, hplaced'⟩
  · -- The body stands inside its definition, and the new frame has the name of that.
    rw [hcall] at hpart
    obtain ⟨-, hplaced'⟩ := (Eval.Keeps.mapM fun e he => (hpart e he).valueOf).of_run hargs
      ⟨hnamed, h.placed⟩
    obtain ⟨hhome, program', hprogram', around', params', span, hdefine, hchain⟩ :=
      hplaced'.findFunction? hfound
    have hname : w.machine.frame.name = name := by
      rw [hmachine]
      exact Frame.bind_name _ _ _
    have hfunctions : w.machine.frame.functions = [] := by
      rw [hmachine]
      exact Frame.bind_functions _ _ _
    refine ⟨⟨program', hprogram', name :: around', ?_, ?_⟩, hhome.of_functions_nil hfunctions⟩
    · rw [hnode]
      exact .body hdefine
    · rw [Named, List.map_cons, hname, hchain, List.cons_append]

theorem Sited.visits (h : v.Sited session) (hv : Visits v w) : w.Sited session := by
  induction hv with
  | refl => exact h
  | tail _ hs ih => exact ih.starts hs

end Visit

/-! ## Sessions -/

namespace Program

/-- The machine after programs that ran one after the other, those that failed included. -/
def after (m : Machine) (programs : List Node) : Machine :=
  programs.foldl (fun m program => (evaluate [] program m).2) m

theorem after_placed {session programs : List Node} (hsub : ∀ p ∈ programs, p ∈ session) {m : Machine}
    (h : Named [] [m.frame] ∧ Placed session [m.frame]) :
    Named [] [(after m programs).frame] ∧ Placed session [(after m programs).frame] := by
  induction programs generalizing m with
  | nil => exact h
  | cons program programs ih =>
    refine ih (fun p hp => hsub p (List.mem_cons_of_mem program hp)) ?_
    have hkept := kept_placed (hsub program List.mem_cons_self) [] []
    exact hkept.eval maxDepth [] .root m h

/-- Every evaluation of a session is sited. -/
theorem visit_sited (programs : List Node) (program : Node) {w : Visit}
    (hw : Visit.Visits ⟨maxDepth, [], program, after fresh programs⟩ w) :
    w.Sited (program :: programs) := by
  have hstart : Named [] [fresh.frame] ∧ Placed (program :: programs) [fresh.frame] :=
    ⟨rfl, .global _⟩
  have hsub : ∀ p ∈ programs, p ∈ program :: programs := fun p hp => List.mem_cons_of_mem program hp
  obtain ⟨hnamed, hplaced⟩ := after_placed hsub hstart
  have hsited : Visit.Sited (program :: programs) ⟨maxDepth, [], program, after fresh programs⟩ :=
    ⟨⟨program, List.mem_cons_self, [], .root, hnamed⟩, hplaced⟩
  exact hsited.visits hw

/-- **Scopes mirror the nesting of definitions.**  Whenever a node is evaluated in a session, the frames
of the scope, from the innermost outwards, are named for the definitions around a place where the node
stands, and the last one is the global frame; so a frame is never deeper than definitions are nested.
Which of several places of equal nodes that is does not matter: in copies of the programs where spans
tell places apart, it is every place where the node stands. -/
theorem scope_mirrors_nesting :
    (∀ (programs : List Node) (program : Node) (w : Visit),
      Visit.Visits ⟨maxDepth, [], program, after fresh programs⟩ w →
      ∃ p ∈ program :: programs, ∃ around, p.Stands around w.node ∧
        (w.machine.frame :: w.outer).map Frame.name = around ++ ["global"] ∧
        w.outer.length = around.length ∧ w.outer.length ≤ p.nesting) ∧
    ∃ marked : Node → Node, (∀ n, (marked n).bare = n.bare) ∧
      ∀ (programs : List Node) (program : Node) (w : Visit),
        Visit.Visits ⟨maxDepth, [], marked program, after fresh (programs.map marked)⟩ w →
        ∀ p ∈ program :: programs, ∀ around, (marked p).Stands around w.node →
          (w.machine.frame :: w.outer).map Frame.name = around ++ ["global"] ∧
          w.outer.length = around.length := by
  have hlength : ∀ {around : List String} {w : Visit}, Named around (w.machine.frame :: w.outer) →
      w.outer.length = around.length := by
    intro around w hnamed
    have h := congrArg List.length hnamed
    simpa using h
  constructor
  · intro programs program w hw
    obtain ⟨p, hp, around, hstands, hnamed⟩ := (visit_sited programs program hw).stands
    have hnesting := hstands.length_add_nesting
    have hdepth := hlength hnamed
    exact ⟨p, hp, around, hstands, hnamed, hdepth, by omega⟩
  · obtain ⟨marked, hbare, honly⟩ := Node.exists_marked
    refine ⟨marked, hbare, fun programs program w hw p hp around hstands => ?_⟩
    obtain ⟨p', hp', around', hstands', hnamed⟩ := (visit_sited _ _ hw).stands
    obtain ⟨p₀, -, rfl⟩ : ∃ p₀ ∈ program :: programs, marked p₀ = p' := List.mem_map.1 hp'
    obtain rfl := honly p p₀ around around' w.node hstands hstands'
    exact ⟨hnamed, hlength hnamed⟩

/-- An inner function that calls itself, and then reads the parameter of the outer one. -/
theorem scope_mirrors_nesting_recursive :
    ∃ (program : Node) (w : Visit), Visit.Visits ⟨maxDepth, [], program, after fresh []⟩ w ∧
      w.node = .var "x" none ∧
      (w.machine.frame :: w.outer).map Frame.name = ["g", "f", "global"] ∧
      ∃ p ∈ [program], ∃ around, p.Stands around w.node ∧
        (w.machine.frame :: w.outer).map Frame.name = around ++ ["global"] ∧
        w.outer.length = around.length ∧ w.outer.length ≤ p.nesting := by
  let again := Node.call "g" [.unary .not (.var "y" none) none] none
  let choice := Node.ternary (.var "y" none) again (.var "x" none) none
  let inner := Node.define "g" [⟨"y", none⟩] [choice] none none
  let outer := Node.define "f" [⟨"x", none⟩] [inner, .call "g" [.var "x" none] none] none none
  let program := Node.block [outer, .call "f" [.literal (.boolean true) none] none] none
  let Reads : Visit → Prop := fun v => ∃ w, v.Visits w ∧ w.node = .var "x" none ∧
    (w.machine.frame :: w.outer).map Frame.name = ["g", "f", "global"]
  have hstarts : ∀ {v u : Visit}, v.Starts u → Reads u → Reads v :=
    fun hs ⟨w, hw, h⟩ => ⟨w, .head hs hw, h⟩
  have hreads : Reads ⟨maxDepth, [], program, after fresh []⟩ := by
    refine hstarts (@Visit.Starts.child _ _ [outer] _ _ _ _ _ _ rfl) ?_
    refine hstarts (.body rfl rfl rfl) (hstarts (@Visit.Starts.child _ _ [inner] _ _ _ _ _ _ rfl) ?_)
    refine hstarts (.body rfl rfl rfl) (hstarts (@Visit.Starts.child _ _ [] _ _ _ _ _ _ rfl) ?_)
    refine hstarts (.branch rfl) ?_
    refine hstarts (.body rfl rfl rfl) (hstarts (@Visit.Starts.child _ _ [] _ _ _ _ _ _ rfl) ?_)
    exact hstarts (.branch rfl) ⟨_, .refl, rfl, rfl⟩
  obtain ⟨w, hw, hnode, hchain⟩ := hreads
  exact ⟨program, w, hw, hnode, hchain, scope_mirrors_nesting.1 [] program w hw⟩

end Program

end Reckon
