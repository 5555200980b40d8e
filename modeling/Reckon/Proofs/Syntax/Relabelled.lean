import Reckon.Proofs.Syntax.Place

/-!
# Trees with other spans

`Node.mapSpans f` is a tree with every span changed by `f`; its names keep their places, which nothing
looks at once a tree is read.  Nothing but spans is different, so that a node of the new tree is a node of
the old one with its spans changed (`Stands.of_mapSpans`).
-/

namespace Reckon.Node

mutual

/-- The tree with its spans changed. -/
def mapSpans (f : Span → Span) : Node → Node
  | empty s => empty (s.map f)
  | literal v s => literal v (s.map f)
  | var x s => var x (s.map f)
  | unary op e s => unary op (e.mapSpans f) (s.map f)
  | binary l op r s => binary (l.mapSpans f) op (r.mapSpans f) (s.map f)
  | ternary c y n s => ternary (c.mapSpans f) (y.mapSpans f) (n.mapSpans f) (s.map f)
  | matrix rows s => matrix (mapSpansRows f rows) (s.map f)
  | call name args s => call name (mapSpansList f args) (s.map f)
  | assign t e s => assign t (e.mapSpans f) (s.map f)
  | block children s => block (mapSpansList f children) (s.map f)
  | define name ps statements bs s => define name ps (mapSpansList f statements) (bs.map f) (s.map f)

/-- Trees with their spans changed. -/
def mapSpansList (f : Span → Span) : List Node → List Node
  | [] => []
  | n :: rest => n.mapSpans f :: mapSpansList f rest

/-- Rows of trees with their spans changed. -/
def mapSpansRows (f : Span → Span) : List (List Node) → List (List Node)
  | [] => []
  | row :: rest => mapSpansList f row :: mapSpansRows f rest

end

variable {f g : Span → Span} {n e : Node} {around : List String}

@[simp]
theorem mapSpansList_eq_map (ns : List Node) : mapSpansList f ns = ns.map (mapSpans f) := by
  induction ns with
  | nil => rfl
  | cons n rest ih => rw [mapSpansList, ih, List.map_cons]

@[simp]
theorem mapSpansRows_eq_map (rows : List (List Node)) :
    mapSpansRows f rows = rows.map (List.map (mapSpans f)) := by
  induction rows with
  | nil => rfl
  | cons row rest ih => rw [mapSpansRows, ih, mapSpansList_eq_map, List.map_cons]

theorem span_mapSpans (n : Node) : (n.mapSpans f).span = n.span.map f := by
  cases n <;> rfl

theorem parts_mapSpans (n : Node) : (n.mapSpans f).parts = n.parts.map (mapSpans f) := by
  cases n with
  | matrix rows span => rw [mapSpans, parts, parts, mapSpansRows_eq_map, List.map_flatten]
  | call name args span => rw [mapSpans, parts, parts, mapSpansList_eq_map]
  | block children span => rw [mapSpans, parts, parts, mapSpansList_eq_map]
  | _ => rfl

/-- What stands below a node of a tree stands in the tree. -/
theorem Stands.trans {program : Node} {around' : List String} (hn : program.Stands around n)
    (he : n.Stands around' e) : program.Stands (around' ++ around) e := by
  induction he with
  | root => exact hn
  | part _ he ih => exact .part ih he
  | body _ ih => exact .body ih

/-- A node of the changed tree is a changed node of the tree. -/
theorem Stands.of_mapSpans (h : (n.mapSpans f).Stands around e) :
    ∃ e₀, n.Stands around e₀ ∧ e = e₀.mapSpans f := by
  induction h with
  | root => exact ⟨n, .root, rfl⟩
  | part _ he ih =>
    obtain ⟨n₀, hn₀, rfl⟩ := ih
    rw [parts_mapSpans] at he
    obtain ⟨e₀, he₀, rfl⟩ := List.mem_map.1 he
    exact ⟨e₀, .part hn₀ he₀, rfl⟩
  | body _ ih =>
    obtain ⟨n₀, hn₀, hdefine⟩ := ih
    cases n₀ with
    | define name ps statements bs s =>
      cases hdefine
      exact ⟨.block statements bs, .body hn₀, rfl⟩
    | _ => cases hdefine

/-- A change that is undone at every node of a tree is undone. -/
theorem mapSpans_cancel (h : ∀ around e, n.Stands around e → (e.span.map f).map g = e.span) :
    (n.mapSpans f).mapSpans g = n := by
  induction n using induct with
  | step n hparts hbody =>
    have hspan : ∀ s, n.span = s → (s.map f).map g = s := fun s hs => hs ▸ h [] n .root
    have hpart : ∀ e ∈ n.parts, (e.mapSpans f).mapSpans g = e := fun e he =>
      hparts e he fun around x hx => h _ x (Stands.trans (.part .root he) hx)
    have hlist : ∀ ns : List Node, (∀ e ∈ ns, (e.mapSpans f).mapSpans g = e) →
        (ns.map (mapSpans f)).map (mapSpans g) = ns := by
      intro ns hns
      rw [List.map_map]
      exact (List.map_congr_left hns).trans (List.map_id ns)
    cases n with
    | empty s | literal v s | var x s => rw [mapSpans, mapSpans, hspan s rfl]
    | unary op e s => rw [mapSpans, mapSpans, hpart e (by simp [parts]), hspan s rfl]
    | binary l op r s =>
      rw [mapSpans, mapSpans, hpart l (by simp [parts]), hpart r (by simp [parts]), hspan s rfl]
    | ternary c y m s =>
      rw [mapSpans, mapSpans, hpart c (by simp [parts]), hpart y (by simp [parts]),
        hpart m (by simp [parts]), hspan s rfl]
    | assign t e s => rw [mapSpans, mapSpans, hpart e (by simp [parts]), hspan s rfl]
    | matrix rows s =>
      rw [mapSpans, mapSpans, mapSpansRows_eq_map, mapSpansRows_eq_map, List.map_map,
        hspan s rfl]
      refine congrArg (matrix · s) ((List.map_congr_left fun row hrow => ?_).trans (List.map_id rows))
      exact hlist row fun e he => hpart e (List.mem_flatten.2 ⟨row, hrow, he⟩)
    | call name args s =>
      rw [mapSpans, mapSpans, mapSpansList_eq_map, mapSpansList_eq_map, hlist args hpart,
        hspan s rfl]
    | block children s =>
      rw [mapSpans, mapSpans, mapSpansList_eq_map, mapSpansList_eq_map, hlist children hpart,
        hspan s rfl]
    | define name ps statements bs s =>
      have hbs : (bs.map f).map g = bs := h [name] (.block statements bs) (.body .root)
      have hstatements : ∀ e ∈ statements, (e.mapSpans f).mapSpans g = e := fun e he =>
        hbody e he fun around x hx => h _ x (Stands.trans (.part (.body .root) he) hx)
      rw [mapSpans, mapSpans, mapSpansList_eq_map, mapSpansList_eq_map, hlist statements hstatements,
        hbs, hspan s rfl]

end Reckon.Node
