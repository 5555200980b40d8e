import Reckon.Eval.Program
import Reckon.Proofs.Eval.Renamed

/-!
# Evaluation does not see spans

A tree keeps the spans it was read at, and so do the bodies of the functions that a scope holds.  They
say where an error is and nothing else.  Two trees that are equal up to spans, evaluated in scopes that
are equal up to the spans of their functions, give the same result and leave such scopes again, or fail
for the same cause: an error of the same class, with the same message and notes (`Program.eval_spanless`).

An error that has no span yet gets that of the node it passes on its way out, so errors that pass the
same nodes have a span or none together, although not the same one.  This needs no argument of its own.
Programs that differ in spans are renamed copies of one another in which no name is renamed
(`Renaming.unnamed`), and copies run alike.
-/

namespace Reckon

/-! ## Scopes without spans -/

/-- The function without the spans of its body. -/
def Function.bare : Function → Function
  | user params body _ => user params (body.map Node.bare) none
  | native b => native b

/-- The frame without the spans of its functions. -/
def Frame.bare (f : Frame) : Frame :=
  { f with functions := f.functions.map fun p => (p.1, p.2.bare) }

/-- The machine without spans. -/
def Machine.bare (m : Machine) : Machine :=
  { m with frame := m.frame.bare }

namespace Renaming

/-- Nothing is renamed: only spans can differ. -/
def unnamed : Renaming where
  names := Set.univ
  maps := {id}
  injOn := by
    rintro ρ rfl
    exact Set.injOn_id _

theorem id_mem_unnamed : id ∈ unnamed.maps :=
  Set.mem_singleton id

theorem map_eq_of_forall₂ {α β : Type} {g : α → β} {Q : α → α → Prop} {xs ys : List α}
    (hQ : ∀ a ∈ xs, ∀ b, Q a b → g b = g a) (h : List.Forall₂ Q xs ys) : ys.map g = xs.map g := by
  induction h with
  | nil => rfl
  | @cons a b xs ys hab _ ih =>
    rw [List.map_cons, List.map_cons, hQ a List.mem_cons_self b hab,
      ih fun c hc => hQ c (List.mem_cons_of_mem a hc)]

theorem map_bare_of_lists {ns ns' : List Node} (h : unnamed.Lists id ns ns')
    (hbare : ∀ e ∈ ns, ∀ e', unnamed.Nodes id e e' → e'.bare = e.bare) :
    ns'.map Node.bare = ns.map Node.bare :=
  map_eq_of_forall₂ hbare ((lists_iff _).1 h)

theorem Rebinds.eq_of_unnamed {ρ σ : String → String} {ps ps' : List String}
    (h : unnamed.Rebinds ρ σ ps ps') : σ = id ∧ ps' = ps := by
  have hσ : σ = id := h.allowed
  exact ⟨hσ, by rw [h.params, hσ, List.map_id]⟩

/-- Without renaming, copies are equal up to spans. -/
theorem bare_of_nodes {n n' : Node} (h : unnamed.Nodes id n n') : n'.bare = n.bare := by
  induction n using Node.induct generalizing n' with
  | step n hparts hbody =>
    cases h with
    | empty => rfl
    | literal => rfl
    | var _ => rfl
    | unary he => simp only [Node.bare, hparts _ (by simp [Node.parts]) he]
    | binary hl hr =>
      simp only [Node.bare, hparts _ (by simp [Node.parts]) hl, hparts _ (by simp [Node.parts]) hr]
    | ternary hc hy hn =>
      simp only [Node.bare, hparts _ (by simp [Node.parts]) hc, hparts _ (by simp [Node.parts]) hy,
        hparts _ (by simp [Node.parts]) hn]
    | @matrix _ rows rows' s s' hrows =>
      have hmap : rows'.map (List.map Node.bare) = rows.map (List.map Node.bare) := by
        refine map_eq_of_forall₂ (fun row hrow row' h => ?_) ((rows_iff _).1 hrows)
        exact map_eq_of_forall₂ (fun e he e' h => hparts e (List.mem_flatten.2 ⟨row, hrow, he⟩) h) h
      simp only [Node.bare, Node.bareRows_eq_map, hmap]
    | call hargs =>
      have hmap := map_bare_of_lists hargs fun e he e' h => hparts e he h
      simp only [Node.bare, Node.bareList_eq_map, hmap]
    | assign _ htarget he =>
      simp only [Node.bare, Identifier.bare, htarget, id, hparts _ (by simp [Node.parts]) he]
    | block hcs =>
      have hmap := map_bare_of_lists hcs fun e he e' h => hparts e he h
      simp only [Node.bare, Node.bareList_eq_map, hmap]
    | @define _ σ f ps ps' cs cs' bs bs' s s' hps hcs =>
      obtain ⟨rfl, hnames⟩ := hps.eq_of_unnamed
      have hmap := map_bare_of_lists hcs fun e he e' h => hbody e he h
      have hparams : ps'.map Identifier.bare = ps.map Identifier.bare := by
        have h := congrArg (List.map fun x => Identifier.mk x none) hnames
        rwa [List.map_map, List.map_map] at h
      simp only [Node.bare, Node.bareList_eq_map, hparams, hmap]

theorem bare_of_functions {g g' : Function} (h : unnamed.Functions id g g') : g'.bare = g.bare := by
  cases h with
  | native => rfl
  | user hps hcs =>
    obtain ⟨rfl, rfl⟩ := hps.eq_of_unnamed
    simp only [Function.bare, map_bare_of_lists hcs fun _ _ _ h => bare_of_nodes h]

theorem bare_of_frames {f f' : Frame} (h : unnamed.Frames id f f') : f'.bare = f.bare := by
  have hvars : f'.vars = f.vars := h.vars.trans (List.map_id _)
  have hfunctions : f'.functions.map (fun p => (p.1, p.2.bare)) =
      f.functions.map (fun p => (p.1, p.2.bare)) := by
    refine map_eq_of_forall₂ (fun p _ q h => ?_) h.functions
    rw [h.1, bare_of_functions h.2]
  simp only [Frame.bare, h.name, hvars, hfunctions]

/-- Without renaming, trees that are equal up to spans are copies. -/
theorem nodes_of_bare_eq {n n' : Node} (h : n'.bare = n.bare) : unnamed.Nodes id n n' :=
  nodes_of_bare _ id_mem_unnamed (fun _ _ => Set.mem_univ _) h

theorem functions_of_bare {g g' : Function} (h : g'.bare = g.bare) : unnamed.Functions id g g' := by
  cases g with
  | native b =>
    cases g' with
    | native b' =>
      cases h
      exact .native
    | user ps' cs' bs' => cases h
  | user ps cs bs =>
    cases g' with
    | native b' => cases h
    | user ps' cs' bs' =>
      simp only [Function.bare, Function.user.injEq, and_true] at h
      obtain ⟨rfl, hcs⟩ := h
      refine .user ⟨id_mem_unnamed, fun _ _ => Set.mem_univ _, by rw [List.map_id], fun _ _ _ => rfl⟩ ?_
      exact (lists_iff _).2 (forall₂_of_map_eq (fun _ _ _ => nodes_of_bare_eq) hcs)

theorem frames_of_bare {f f' : Frame} (h : f'.bare = f.bare) : unnamed.Frames id f f' := by
  simp only [Frame.bare, Frame.mk.injEq] at h
  obtain ⟨hname, hvars, hfunctions⟩ := h
  refine ⟨id_mem_unnamed, hname, fun _ _ => Set.mem_univ _, hvars.trans (List.map_id _).symm, ?_⟩
  refine forall₂_of_map_eq (fun p _ q hpq => ?_) hfunctions
  obtain ⟨hkey, hfunction⟩ := Prod.mk.inj hpq
  exact ⟨hkey, functions_of_bare hfunction⟩

/-- Scopes that are equal up to spans are copies. -/
theorem scopes_of_bare {s s' : Scope} (h : s'.map Frame.bare = s.map Frame.bare) :
    unnamed.Scopes id s s' := by
  induction s generalizing s' with
  | nil =>
    rw [List.map_nil, List.map_eq_nil_iff] at h
    rw [h]
    exact .nil fun _ _ => rfl
  | cons f s ih =>
    cases s' with
    | nil => cases h
    | cons f' s' =>
      obtain ⟨hf, hs⟩ := List.cons.inj h
      exact .cons (frames_of_bare hf) (ih hs) fun _ _ _ => rfl

end Renaming

/-! ## Runs without spans -/

namespace Program

open Eval

/-- The outcome and the machine of a run, both without spans. -/
def Run.bare (r : Run) : Run :=
  (r.1.mapError Failure.bare, r.2.bare)

/-- Evaluations that agree without renaming are the same run, up to spans. -/
theorem Run.bare_of_agree {outer outer' : Scope} {x x' : Eval Result} {m m' : Machine}
    (h : Renaming.unnamed.Agree id outer outer' x x')
    (houter : outer'.map Frame.bare = outer.map Frame.bare) (hm : m'.bare = m.bare) :
    Run.bare (x' m') = Run.bare (x m) := by
  simp only [Machine.bare, Machine.mk.injEq] at hm
  have hscopes : Renaming.unnamed.Scopes id (m.frame :: outer) (m'.frame :: outer') :=
    Renaming.scopes_of_bare (congrArg₂ List.cons hm.1 houter)
  obtain ⟨hresult, hscope, hlog⟩ := h m m' hscopes hm.2
  have hframe : (x' m').2.frame.bare = (x m).2.frame.bare := by
    cases hscope with
    | cons hf _ _ => exact Renaming.bare_of_frames hf
  have hmachine : (x' m').2.bare = (x m).2.bare := by
    simp only [Machine.bare, hframe, hlog]
  exact Prod.ext hresult hmachine

/-- **Spans do not matter to a run**, except for where it reports its error. -/
theorem evaluate_congr {n n' : Node} (h : n'.bare = n.bare) (outer : Scope) (m : Machine) :
    Run.bare (evaluate outer n' m) = Run.bare (evaluate outer n m) :=
  Run.bare_of_agree (Renaming.eval_agree _ maxDepth (Renaming.nodes_of_bare_eq h)) rfl rfl

/-- **Spans are invisible to evaluation.**  Trees that are equal up to spans, evaluated in scopes that
are equal up to the spans of their functions, give the same result or fail for the same cause, and they
leave scopes that are equal up to those spans.  Only the place of an error can differ. -/
theorem eval_spanless (depth : Nat) {outer outer' : Scope} {n n' : Node} {m m' : Machine}
    (hn : n'.bare = n.bare) (houter : outer'.map Frame.bare = outer.map Frame.bare)
    (hm : m'.bare = m.bare) :
    Run.bare (eval depth outer' n' m') = Run.bare (eval depth outer n m) :=
  Run.bare_of_agree (Renaming.eval_agree _ depth (Renaming.nodes_of_bare_eq hn)) houter hm

/-- Two copies of a function, read at different places and kept in the frame around, fail in their
bodies when they are called.  Each error is placed in its own copy, and the cause is the same. -/
theorem eval_spanless_stored :
    let body (s : Option Span) : Function := .user ["x"] [.var "x" none, .var "y" s] none
    let around (s : Option Span) : Scope := [{ functions := [("f", body s)] }]
    let program (s : Option Span) : Node := .call "f" [.literal (.boolean true) s] s
    let here : Option Span := some (.point "first" 1 7)
    let there : Option Span := some (.point "second" 4 2)
    let m : Machine := { frame := {} }
    (eval 9 (around here) (program there) m).1 = .error (.placed (.undeclaredVariable "y") here) ∧
      (eval 9 (around there) (program none) m).1 = .error (.placed (.undeclaredVariable "y") there) ∧
      Run.bare (eval 9 (around there) (program none) m) =
        Run.bare (eval 9 (around here) (program there) m) := by
  intro body around program here there m
  exact ⟨rfl, rfl, eval_spanless 9 rfl rfl rfl⟩

end Program

end Reckon
