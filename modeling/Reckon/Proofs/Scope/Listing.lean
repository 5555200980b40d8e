import Mathlib.Data.List.Nodup
import Mathlib.Data.String.Basic
import Reckon.Proofs.Scope.Nesting

/-!
# Listings of a frame

What a frame has is shown as two listings in the order of names, one of its variables and one of the functions
that programs defined in it.  A listing goes by the bindings themselves and not by lookup, which stops at the
first binding of a name; so it tells what lookup finds only if no name is bound twice (`Bindings.Distinct`).
Binding a name again replaces the binding that it has, and nothing else makes bindings.  That is kept by all
evaluations (`Frame.kept_distinct`), and all frames that a session comes to are listed exactly
(`Program.listed`).
-/

namespace Reckon

namespace Bindings

variable {α : Type} {b : Bindings α} {x : String} {v : α}

/-- No name is bound twice. -/
def Distinct (b : Bindings α) : Prop :=
  (b.map Prod.fst).Nodup

/-- Binding a name again keeps its place among the names. -/
theorem map_fst_set (b : Bindings α) (x : String) (v : α) :
    (b.set x v).map Prod.fst =
      if x ∈ b.map Prod.fst then b.map Prod.fst else b.map Prod.fst ++ [x] := by
  induction b with
  | nil => rfl
  | cons p rest ih =>
    obtain ⟨n, y⟩ := p
    rw [set]
    by_cases hn : n = x
    · simp [hn]
    · rw [if_neg hn, List.map_cons, ih, List.map_cons]
      have hmem : x ∈ n :: rest.map Prod.fst ↔ x ∈ rest.map Prod.fst := by simp [Ne.symm hn]
      simp only [hmem]
      split <;> rfl

namespace Distinct

theorem set (h : b.Distinct) (x : String) (v : α) : (b.set x v).Distinct := by
  unfold Distinct
  rw [map_fst_set]
  split
  · exact h
  · rename_i hx
    exact h.append (List.nodup_singleton x) (List.disjoint_singleton.2 hx)

theorem filter (h : b.Distinct) (p : String × α → Bool) : Distinct (b.filter p) :=
  (List.filter_sublist.map Prod.fst).nodup h

/-- Where no name is bound twice, lookup finds every binding. -/
theorem get?_eq_some_iff (h : b.Distinct) : b.get? x = some v ↔ (x, v) ∈ b := by
  refine ⟨mem_of_get?, fun hmem => ?_⟩
  induction b with
  | nil => cases hmem
  | cons p rest ih =>
    obtain ⟨n, y⟩ := p
    obtain ⟨hn, hrest⟩ := List.nodup_cons.1 h
    rw [get?]
    rcases List.mem_cons.1 hmem with heq | hmem
    · cases heq
      exact if_pos rfl
    · have hx : x ∈ rest.map Prod.fst := List.mem_map_of_mem hmem
      have hne : n ≠ x := fun heq => hn (heq ▸ hx)
      rw [if_neg hne]
      exact ih hrest hmem

/-- The names of the listing go up strictly. -/
theorem pairwise_sorted (h : b.Distinct) : (b.sorted.map Prod.fst).Pairwise (· < ·) := by
  have hle : b.sorted.Pairwise fun p q => decide (p.1 ≤ q.1) = true := by
    refine List.pairwise_mergeSort (fun p q r hpq hqr => ?_) (fun p q => ?_) b
    · exact decide_eq_true (le_trans (of_decide_eq_true hpq) (of_decide_eq_true hqr))
    · exact (le_total p.1 q.1).elim (fun h => by simp [h]) fun h => by simp [h]
  have hnodup : (b.sorted.map Prod.fst).Nodup := ((List.mergeSort_perm b _).map Prod.fst).nodup_iff.2 h
  rw [List.pairwise_map]
  refine (hle.and (List.pairwise_map.1 hnodup)).imp fun hpq => ?_
  exact lt_of_le_of_ne (of_decide_eq_true hpq.1) hpq.2

end Distinct

/-- The listing has each name at most once, in order, with what `find` says of it. -/
structure Lists (listing : Bindings α) (find : String → Option α) : Prop where
  ordered : (listing.map Prod.fst).Pairwise (· < ·)
  mem_iff : ∀ x v, (x, v) ∈ listing ↔ find x = some v

theorem Distinct.lists (h : b.Distinct) : b.sorted.Lists b.get? where
  ordered := h.pairwise_sorted
  mem_iff _ _ := List.mem_mergeSort.trans h.get?_eq_some_iff.symm

end Bindings

namespace Frame

/-- No variable and no function is bound twice. -/
structure Distinct (f : Frame) : Prop where
  vars : f.vars.Distinct
  functions : f.functions.Distinct

variable {f : Frame}

namespace Distinct

theorem empty (name : String) : Distinct { name := name } :=
  ⟨List.nodup_nil, List.nodup_nil⟩

theorem assign (h : f.Distinct) (x : String) (v : Value) : (f.assign x v).Distinct :=
  ⟨h.vars.set x v, h.functions⟩

theorem define (h : f.Distinct) (name : String) (g : Function) : (f.define name g).Distinct :=
  ⟨h.vars, h.functions.set name g⟩

theorem bind (h : f.Distinct) (params : List String) (args : List Value) :
    (f.bind params args).Distinct := by
  unfold Frame.bind
  induction params.zip args generalizing f with
  | nil => exact h
  | cons p rest ih => exact ih (h.assign p.1 p.2)

theorem global : Frame.global.Distinct := by
  have key : ∀ (bs : List Builtin) {f : Frame}, f.Distinct →
      (bs.foldl (fun f b => f.define b.name (.native b)) f).Distinct := by
    intro bs
    induction bs with
    | nil => exact fun h => h
    | cons b bs ih => exact fun h => ih (h.define b.name (.native b))
  exact key Builtin.all (empty "global")

end Distinct

/-- Evaluations bind no name twice. -/
theorem kept_distinct : Eval.Kept (fun _ => True) Frame.Distinct where
  parts _ _ _ _ := trivial
  assign _ x v h := h.assign x v
  define _ _ _ _ _ _ _ h := h.define _ _

/-- What programs defined in the frame. -/
def findUser? (f : Frame) (name : String) : Option Function :=
  (f.functions.get? name).filter fun g => g.params?.isSome

/-- The two listings of a frame say what the frame has. -/
structure Listed (f : Frame) : Prop where
  vars : f.vars.sorted.Lists f.vars.get?
  functions : f.userFunctions.sorted.Lists f.findUser?

theorem Distinct.listed (h : f.Distinct) : f.Listed where
  vars := h.vars.lists
  functions := by
    have huser : f.userFunctions.Distinct := h.functions.filter _
    refine ⟨huser.pairwise_sorted, fun x g => List.mem_mergeSort.trans ?_⟩
    rw [userFunctions, List.mem_filter, findUser?, Option.filter_eq_some_iff,
      h.functions.get?_eq_some_iff]

end Frame

namespace Visit

variable {v w : Visit}

/-- In no frame of the scope is a name bound twice. -/
def Distinct (v : Visit) : Prop :=
  ∀ f ∈ v.machine.frame :: v.outer, f.Distinct

/-- The body of a function starts with a frame of its own, around which stand frames of the caller. -/
theorem Distinct.starts (h : v.Distinct) (hs : Starts v w) : w.Distinct := by
  obtain ⟨hframe, houter⟩ := List.forall_mem_cons.1 h
  have hpart : ∀ e ∈ v.node.parts, Eval.Keeps Frame.Distinct (Eval.eval w.depth v.outer e) :=
    fun _ _ => Frame.kept_distinct.eval _ _ trivial
  rcases hs.part_or_body with ⟨-, hsame, hkeeps⟩ |
    ⟨name, args, span, vs, m₁, params, body, bodySpan, hcall, hargs, hfound, -, hmachine⟩
  · exact List.forall_mem_cons.2 ⟨hkeeps _ hpart hframe, hsame ▸ houter⟩
  · rw [hcall] at hpart
    have hframe₁ := (Eval.Keeps.mapM fun e he => (hpart e he).valueOf).of_run hargs hframe
    refine List.forall_mem_cons.2 ⟨?_, fun f hf => ?_⟩
    · rw [hmachine]
      exact (Frame.Distinct.empty name).bind params vs
    · exact List.forall_mem_cons.2 ⟨hframe₁, houter⟩ f ((Scope.findFunction?_suffix hfound).subset hf)

end Visit

namespace Program

theorem distinct_after {m : Machine} (hm : m.frame.Distinct) (programs : List Node) :
    (after m programs).frame.Distinct := by
  induction programs generalizing m with
  | nil => exact hm
  | cons program programs ih => exact ih (Frame.kept_distinct.eval _ _ trivial m hm)

/-- **Every frame is listed exactly.**  Whatever programs ran before in the same global scope, in each frame
of the scope of every evaluation that a program comes to, the listing of variables and that of functions
which programs defined have each name once, in order, and with what lookup in this frame finds. -/
theorem listed (programs : List Node) (program : Node) {w : Visit}
    (hw : Visit.Visits ⟨Eval.maxDepth, [], program, after fresh programs⟩ w) :
    ∀ f ∈ w.machine.frame :: w.outer, f.Listed := by
  suffices h : w.Distinct from fun f hf => (h f hf).listed
  induction hw with
  | refl => exact List.forall_mem_singleton.2 (distinct_after Frame.Distinct.global programs)
  | tail _ hs ih => exact ih.starts hs

end Program

end Reckon
