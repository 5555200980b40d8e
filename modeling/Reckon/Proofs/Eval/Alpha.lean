import Reckon.Eval.Program
import Reckon.Proofs.Eval.Renamed

/-!
# The name of a parameter does not matter

Writing `q` for a parameter `p` of a definition, in the definition and wherever its body means that
parameter, changes nothing about what a program gives, as long as `q` is new to the program
(`Program.evaluate_rename`).  Outside the definition no name is renamed and inside it `p` is; in a
definition further in that has its own `p`, again none.  Each time the two differ on `p` alone, which is
a parameter of the definition between them, so these are renamings in the sense of `Renaming`.
-/

namespace Reckon

namespace Renaming

variable {p q : String}

/-- Renaming `p` to `q` in some places, and nothing elsewhere, in programs where `q` does not occur. -/
def toNew (p q : String) : Renaming where
  names := {x | x ≠ q}
  maps := {id, renameTo p q}
  injOn := by
    rintro ρ (rfl | rfl) x hx y hy hxy
    · exact hxy
    · unfold renameTo at hxy
      split at hxy <;> split at hxy
      · rename_i hx' hy'
        rw [hx', hy']
      · exact absurd hxy.symm hy
      · exact absurd hxy hx
      · exact hxy

theorem id_mem_toNew : id ∈ (toNew p q).maps := .inl rfl

theorem renameTo_mem_toNew : renameTo p q ∈ (toNew p q).maps := .inr rfl

theorem names_of_notMem {xs : List String} (h : q ∉ xs) : ∀ x ∈ xs, x ∈ (toNew p q).names := by
  rintro x hx rfl
  exact h hx

/-- Where `q` does not occur, the tree with `q` for `p` is a renamed copy. -/
theorem nodes_rename (n : Node) (hq : q ∉ n.variableNames) :
    (toNew p q).Nodes (renameTo p q) n (n.rename p q) := by
  induction n using Node.induct with
  | step n hparts hbody =>
    have hpart : ∀ e ∈ n.parts, (toNew p q).Nodes (renameTo p q) e (e.rename p q) := fun e he =>
      hparts e he fun hx => hq (Node.variableNames_parts he hx)
    have hlist : ∀ ns : List Node, (∀ e ∈ ns, (toNew p q).Nodes (renameTo p q) e (e.rename p q)) →
        List.Forall₂ ((toNew p q).Nodes (renameTo p q)) ns (ns.map (Node.rename p q)) := by
      intro ns hns
      exact List.forall₂_map_right_iff.2 (List.forall₂_same.2 hns)
    cases n with
    | empty s => exact .empty
    | literal v s => exact .literal
    | var x s => exact .var (names_of_notMem hq x (by simp [Node.variableNames]))
    | unary op e s => exact .unary (hpart e (by simp [Node.parts]))
    | binary l op r s =>
      exact .binary (hpart l (by simp [Node.parts])) (hpart r (by simp [Node.parts]))
    | ternary c y m s =>
      exact .ternary (hpart c (by simp [Node.parts])) (hpart y (by simp [Node.parts]))
        (hpart m (by simp [Node.parts]))
    | matrix rows s =>
      rw [Node.rename, Node.renameRows_eq_map]
      refine .matrix ((rows_iff _).2 (List.forall₂_map_right_iff.2 (List.forall₂_same.2 ?_)))
      exact fun row hrow => hlist row fun e he => hpart e (List.mem_flatten.2 ⟨row, hrow, he⟩)
    | call f args s =>
      rw [Node.rename, Node.renameList_eq_map]
      exact .call ((lists_iff _).2 (hlist args hpart))
    | assign t e s =>
      exact .assign (names_of_notMem hq t.name (by simp [Node.variableNames])) rfl
        (hpart e (by simp [Node.parts]))
    | block cs s =>
      rw [Node.rename, Node.renameList_eq_map]
      exact .block ((lists_iff _).2 (hlist cs hpart))
    | define f ps cs bs s =>
      have hknown : ∀ x ∈ ps.map Identifier.name, x ∈ (toNew p q).names := fun x hx =>
        names_of_notMem hq x (List.mem_append_left _ hx)
      have hfresh : ∀ e ∈ cs, q ∉ e.variableNames := fun e he hx => hq (Node.variableNames_body he hx)
      rw [Node.rename]
      split
      · -- Inside, nothing is renamed: that differs on `p`, a parameter.
        rename_i hp
        refine .define (σ := id) ⟨id_mem_toNew, hknown, by rw [List.map_id], fun x _ hx => ?_⟩ ?_
        · have hne : x ≠ p := fun hxp => hx (hxp ▸ hp)
          exact (renameTo_of_ne q hne).symm
        · refine (lists_iff _).2 (List.forall₂_same.2 fun e he => ?_)
          exact nodes_of_bare _ id_mem_toNew (names_of_notMem (hfresh e he)) rfl
      · rename_i hp
        refine .define (σ := renameTo p q) ⟨renameTo_mem_toNew, hknown, ?_, fun _ _ _ => rfl⟩ ?_
        · refine (List.map_id _).symm.trans (List.map_congr_left fun x hx => ?_)
          have hne : x ≠ p := fun hxp => hp (hxp ▸ hx)
          exact (renameTo_of_ne q hne).symm
        · rw [Node.renameList_eq_map]
          exact (lists_iff _).2 (hlist cs fun e he => hbody e he (hfresh e he))

/-- A definition with `q` for its parameter `p` is a copy in which, outside, nothing is renamed. -/
theorem nodes_define (f : String) {ps : List Identifier} {cs : List Node} (bs s : Option Span)
    (hp : p ∈ ps.map Identifier.name) (hq : q ∉ (Node.define f ps cs bs s).variableNames) :
    (toNew p q).Nodes id (.define f ps cs bs s)
      (.define f (ps.map (Identifier.rename p q)) (cs.map (Node.rename p q)) bs s) := by
  have hknown : ∀ x ∈ ps.map Identifier.name, x ∈ (toNew p q).names := fun x hx =>
    names_of_notMem hq x (List.mem_append_left _ hx)
  have hparams : (ps.map (Identifier.rename p q)).map Identifier.name =
      (ps.map Identifier.name).map (renameTo p q) := by
    rw [List.map_map, List.map_map]
    rfl
  refine .define (σ := renameTo p q) ⟨renameTo_mem_toNew, hknown, hparams, fun x _ hx => ?_⟩ ?_
  · have hne : x ≠ p := fun hxp => hx (hxp ▸ hp)
    exact renameTo_of_ne q hne
  · refine (lists_iff _).2 (List.forall₂_map_right_iff.2 (List.forall₂_same.2 fun e he => ?_))
    exact nodes_rename e fun hx => hq (Node.variableNames_body he hx)

/-- A copy of a node makes a copy of the program around it. -/
theorem nodes_fill {n n' : Node} (h : q ∉ n.variableNames → (toNew p q).Nodes id n n') (C : Node.Context)
    (hq : q ∉ (C.fill n).variableNames) : (toNew p q).Nodes id (C.fill n) (C.fill n') := by
  -- What stands beside the hole has no `q` in it, and is its own copy.
  have hinner : ∀ {m e : Node}, q ∉ m.variableNames → e ∈ m.parts ∨ e ∈ m.body → q ∉ e.variableNames :=
    fun hm he hx =>
      hm (he.elim (fun he => Node.variableNames_parts he hx) fun he => Node.variableNames_body he hx)
  have hself : ∀ {m e : Node}, q ∉ m.variableNames → e ∈ m.parts ∨ e ∈ m.body →
      (toNew p q).Nodes id e e := fun hm he =>
    nodes_of_bare _ id_mem_toNew (names_of_notMem (hinner hm he)) rfl
  have hlist : ∀ {before after : List Node} {e e' : Node}, (toNew p q).Nodes id e e' →
      (∀ a ∈ before, (toNew p q).Nodes id a a) → (∀ a ∈ after, (toNew p q).Nodes id a a) →
      List.Forall₂ ((toNew p q).Nodes id) (before ++ e :: after) (before ++ e' :: after) :=
    fun he hb ha => List.rel_append (List.forall₂_same.2 hb) (.cons he (List.forall₂_same.2 ha))
  induction C with
  | hole => exact h hq
  | operand op inner s ih => exact .unary (ih hq)
  | left inner op r s ih =>
    exact .binary (ih (hinner hq (by simp [Node.Context.fill, Node.parts])))
      (hself hq (by simp [Node.Context.fill, Node.parts]))
  | right l op inner s ih =>
    exact .binary (hself hq (by simp [Node.Context.fill, Node.parts]))
      (ih (hinner hq (by simp [Node.Context.fill, Node.parts])))
  | condition inner y m s ih =>
    exact .ternary (ih (hinner hq (by simp [Node.Context.fill, Node.parts])))
      (hself hq (by simp [Node.Context.fill, Node.parts]))
      (hself hq (by simp [Node.Context.fill, Node.parts]))
  | yes c inner m s ih =>
    exact .ternary (hself hq (by simp [Node.Context.fill, Node.parts]))
      (ih (hinner hq (by simp [Node.Context.fill, Node.parts])))
      (hself hq (by simp [Node.Context.fill, Node.parts]))
  | no c y inner s ih =>
    exact .ternary (hself hq (by simp [Node.Context.fill, Node.parts]))
      (hself hq (by simp [Node.Context.fill, Node.parts]))
      (ih (hinner hq (by simp [Node.Context.fill, Node.parts])))
  | cell above before inner after below s ih =>
    have hrow : ∀ row ∈ above ++ below, List.Forall₂ ((toNew p q).Nodes id) row row := by
      intro row hrow
      refine List.forall₂_same.2 fun e he => hself hq (.inl ?_)
      refine List.mem_flatten.2 ⟨row, ?_, he⟩
      rcases List.mem_append.1 hrow with h | h
      · exact List.mem_append_left _ h
      · exact List.mem_append_right _ (List.mem_cons_of_mem _ h)
    refine .matrix ((rows_iff _).2 (List.rel_append ?_ (.cons (hlist (ih ?_) ?_ ?_) ?_)))
    · exact List.forall₂_same.2 fun row h => hrow row (List.mem_append_left _ h)
    · exact hinner hq (by simp [Node.Context.fill, Node.parts])
    · exact fun a ha => hself hq (by simp [Node.Context.fill, Node.parts, ha])
    · exact fun a ha => hself hq (by simp [Node.Context.fill, Node.parts, ha])
    · exact List.forall₂_same.2 fun row h => hrow row (List.mem_append_right _ h)
  | argument f before inner after s ih =>
    refine .call ((lists_iff _).2 (hlist (ih ?_) ?_ ?_))
    · exact hinner hq (by simp [Node.Context.fill, Node.parts])
    · exact fun a ha => hself hq (by simp [Node.Context.fill, Node.parts, ha])
    · exact fun a ha => hself hq (by simp [Node.Context.fill, Node.parts, ha])
  | value t inner s ih =>
    exact .assign (names_of_notMem hq t.name List.mem_cons_self) rfl
      (ih (hinner hq (by simp [Node.Context.fill, Node.parts])))
  | child before inner after s ih =>
    refine .block ((lists_iff _).2 (hlist (ih ?_) ?_ ?_))
    · exact hinner hq (by simp [Node.Context.fill, Node.parts])
    · exact fun a ha => hself hq (by simp [Node.Context.fill, Node.parts, ha])
    · exact fun a ha => hself hq (by simp [Node.Context.fill, Node.parts, ha])
  | body f ps before inner after bs s ih =>
    have hknown : ∀ x ∈ ps.map Identifier.name, x ∈ (toNew p q).names := fun x hx =>
      names_of_notMem hq x (List.mem_append_left _ hx)
    refine .define ⟨id_mem_toNew, hknown, by rw [List.map_id], fun _ _ _ => rfl⟩
      ((lists_iff _).2 (hlist (ih ?_) ?_ ?_))
    · exact hinner hq (by simp [Node.Context.fill, Node.body])
    · exact fun a ha => hself hq (by simp [Node.Context.fill, Node.body, ha])
    · exact fun a ha => hself hq (by simp [Node.Context.fill, Node.body, ha])

/-- A scope that has only native functions and no variables is its own copy. -/
theorem scopes_global : (toNew p q).Scopes id [Frame.global] [Frame.global] := by
  have hfunctions : Frame.global.functions.Related ((toNew p q).Functions id)
      Frame.global.functions := by
    refine List.forall₂_same.2 fun x hx => ⟨rfl, ?_⟩
    obtain ⟨b, hb⟩ := Frame.native_of_mem_global hx
    rw [hb]
    exact .native
  have hvars : Frame.global.vars = [] := rfl
  have hframe : (toNew p q).Frames id Frame.global Frame.global :=
    ⟨id_mem_toNew, rfl, by simp [hvars], by simp [hvars, Bindings.renamed], hfunctions⟩
  exact .cons hframe (.nil fun _ _ => rfl) fun _ _ _ => rfl

end Renaming

namespace Program

open Node

/-- **The name of a parameter does not matter.**  A program with a definition anywhere in it gives the
same, values or error, with another name for a parameter of the definition, one that is new to the
program.  The errors can differ in their places only. -/
theorem evaluate_rename (C : Context) (f : String) {ps : List Identifier} {body : List Node}
    (bodySpan span : Option Span) {p q : String} (hp : p ∈ ps.map Identifier.name)
    (hq : q ∉ (C.fill (define f ps body bodySpan span)).variableNames) :
    (evaluate []
        (C.fill (define f (ps.map (Identifier.rename p q)) (body.map (Node.rename p q)) bodySpan span))
        fresh).1.mapError Failure.bare =
      (evaluate [] (C.fill (define f ps body bodySpan span)) fresh).1.mapError Failure.bare := by
  have hcopy := Renaming.nodes_fill (Renaming.nodes_define f bodySpan span hp) C hq
  exact (Renaming.eval_agree (Renaming.toNew p q) Eval.maxDepth hcopy fresh fresh
    Renaming.scopes_global rfl).1

/-- Beside a global `p`, a parameter `p` that an inner function reads and another one shadows. -/
theorem evaluate_rename_nested :
    ∃ (C : Context) (body : List Node), "p" ∈ [Identifier.mk "p" none].map Identifier.name ∧
      "q" ∉ (C.fill (define "f" [⟨"p", none⟩] body none none)).variableNames ∧
      (evaluate [] (C.fill (define "f" [⟨"q", none⟩] (body.map (Node.rename "p" "q")) none none))
          fresh).1.mapError Failure.bare =
        (evaluate [] (C.fill (define "f" [⟨"p", none⟩] body none none))
          fresh).1.mapError Failure.bare := by
  let shadowing := define "h" [⟨"p", none⟩] [unary .not (var "p" none) none] none none
  let reading := define "g" [⟨"x", none⟩]
    [shadowing, binary (var "p" none) .and (call "h" [var "x" none] none) none] none none
  let body := [reading, call "g" [var "p" none] none]
  let C := Context.child [assign ⟨"p", none⟩ (literal (.boolean true) none) none] .hole
    [call "f" [literal (.boolean false) none] none, var "p" none] none
  have hp : "p" ∈ [Identifier.mk "p" none].map Identifier.name := by simp
  have hq : "q" ∉ (C.fill (define "f" [⟨"p", none⟩] body none none)).variableNames := by
    simp [C, body, reading, shadowing, Context.fill, variableNames]
  have hps : [Identifier.mk "p" none].map (Identifier.rename "p" "q") = [⟨"q", none⟩] := by
    simp [Identifier.rename, renameTo]
  have h := evaluate_rename C "f" none none hp hq
  rw [hps] at h
  exact ⟨C, body, hp, hq, h⟩

end Program

end Reckon
