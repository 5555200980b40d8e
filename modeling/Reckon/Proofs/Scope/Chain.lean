import Reckon.Scope.Tree

/-!
# Chains of frames in a tree

In a tree whose parents have smaller numbers (`Ordered`), going from parent to parent comes to an end,
and the chain of a frame is the frame followed by the chain of its parent.  A tree that grows, and
changes a frame of larger number only, keeps the chain (`Extends.scope_eq`).
-/

namespace Reckon.ScopeTree

/-- Each frame's parent has a smaller number. -/
def Ordered (t : ScopeTree) : Prop :=
  ∀ (i : Nat) (e : Entry), t.entries[i]? = some e → ∀ p, e.parent = some p → p < i

variable {t u v : ScopeTree} {i j k : Nat} {e : Entry} {name : String}

/-! ## Paths -/

/-- A bound above the number of the frame is enough. -/
theorem pathFrom_eq (ht : t.Ordered) {n m : Nat} (hn : i < n) (hm : i < m) :
    t.pathFrom n i = t.pathFrom m i := by
  induction n generalizing i m with
  | zero => omega
  | succ n ih =>
    cases m with
    | zero => omega
    | succ m =>
      rw [pathFrom, pathFrom]
      cases he : t.entries[i]? with
      | none => rfl
      | some e =>
        cases hp : e.parent with
        | none => simp [hp]
        | some p =>
          have hlt := ht i e he p hp
          simp [hp, ih (m := m) (i := p) (by omega) (by omega)]

theorem path_none (he : t.entries[i]? = none) : t.path i = [] := by
  rw [path, pathFrom, he]

theorem path_some (ht : t.Ordered) (he : t.entries[i]? = some e) :
    t.path i = i :: (match e.parent with
      | none => []
      | some p => t.path p) := by
  rw [path, pathFrom, he]
  cases hp : e.parent with
  | none => simp [hp]
  | some p =>
    have hlt := ht i e he p hp
    simp [hp, path, pathFrom_eq ht hlt (Nat.lt_succ_self p)]

theorem frame_some (he : t.entries[i]? = some e) : t.frame i = e.frame := by
  rw [frame, he]

theorem depth_some (he : t.entries[i]? = some e) : t.depth i = e.depth := by
  rw [depth, he]

/-- The frames around a frame are its parent and those around that. -/
theorem outer_some (ht : t.Ordered) (he : t.entries[i]? = some e) :
    t.outer i = match e.parent with
      | none => []
      | some p => t.scope p := by
  rw [outer, scope, path_some ht he]
  cases e.parent <;> rfl

theorem scope_some (ht : t.Ordered) (he : t.entries[i]? = some e) :
    t.scope i = e.frame :: t.outer i := by
  rw [outer, scope, path_some ht he, List.map_cons, frame_some he]
  rfl

/-- A function is found with the chain of the frame that has it. -/
theorem findFunction?_scope (ht : t.Ordered) (i : Nat) (name : String) :
    Scope.findFunction? (t.scope i) name =
      match t.findFunction i name with
      | .ok (g, k) => some (g, t.scope k)
      | .error _ => none := by
  -- Both go outwards, and the parent's number is smaller.
  induction i using Nat.strongRecOn with
  | ind i ih =>
    cases he : t.entries[i]? with
    | none =>
      rw [findFunction, scope, path_none he]
      rfl
    | some e =>
      rw [scope_some ht he, Scope.findFunction?]
      rw [findFunction, path_some ht he, List.findSome?_cons, frame_some he]
      cases hg : e.frame.functions.get? name with
      | some g =>
        simp only [Option.map_some]
        rw [scope_some ht he]
      | none =>
        simp only [Option.map_none]
        rw [outer_some ht he]
        cases hp : e.parent with
        | none => rfl
        | some p => exact ih p (ht i e he p hp)

theorem lt_length_of_mem_pathFrom {n : Nat} (h : k ∈ t.pathFrom n i) : k < t.entries.length := by
  induction n generalizing i with
  | zero => cases h
  | succ n ih =>
    rw [pathFrom] at h
    split at h
    · cases h
    · rename_i e he
      rcases List.mem_cons.1 h with rfl | h
      · exact (List.getElem?_eq_some_iff.1 he).1
      · split at h
        · cases h
        · exact ih h

/-- A function is found in a frame of the tree. -/
theorem findFunction_lt {g : Function} (h : t.findFunction i name = .ok (g, k)) :
    k < t.entries.length := by
  unfold findFunction at h
  dsimp only at h
  split at h
  · rename_i r hr
    cases h
    obtain ⟨p, hp, hg⟩ := List.exists_of_findSome?_eq_some hr
    obtain ⟨g', -, heq⟩ := Option.map_eq_some_iff.1 hg
    cases heq
    exact lt_length_of_mem_pathFrom hp
  · cases h

theorem ordered_root (f : Frame) : (root f).Ordered := by
  intro i e he p hp
  match i, he with
  | 0, he =>
    cases he
    cases hp

/-! ## Trees that grow -/

/-- Every frame of `t` is still there, with the same parent and as deep, and all but frame `i` as they were. -/
structure Extends (i : Nat) (t u : ScopeTree) : Prop where
  entry : ∀ (k : Nat) (e : Entry), t.entries[k]? = some e →
    ∃ f, u.entries[k]? = some { e with frame := f } ∧ (k ≠ i → f = e.frame)
  ordered : t.Ordered → u.Ordered

/-- Every frame of `t` is still there as it was. -/
def Spares (t u : ScopeTree) : Prop :=
  ∀ (k : Nat) (e : Entry), t.entries[k]? = some e → u.entries[k]? = some e

theorem Spares.refl (t : ScopeTree) : Spares t t :=
  fun _ _ h => h

theorem Extends.refl (i : Nat) (t : ScopeTree) : Extends i t t :=
  ⟨fun _ e h => ⟨e.frame, h, fun _ => rfl⟩, id⟩

theorem Extends.trans (h : Extends i t u) (h' : Extends i u v) : Extends i t v := by
  refine ⟨fun k e he => ?_, fun ht => h'.ordered (h.ordered ht)⟩
  obtain ⟨f, hf, hsame⟩ := h.entry k e he
  obtain ⟨f', hf', hsame'⟩ := h'.entry k _ hf
  exact ⟨f', hf', fun hk => (hsame' hk).trans (hsame hk)⟩

/-- Changes to a frame that was not there before spare those that were. -/
theorem Spares.extend (h : Spares t u) (h' : Extends j u v) (hj : t.entries.length ≤ j) :
    Spares t v := by
  intro k e he
  have hlt : k < t.entries.length := (List.getElem?_eq_some_iff.1 he).1
  obtain ⟨f, hf, hsame⟩ := h'.entry k e (h k e he)
  rw [hf, hsame (by omega)]

theorem Spares.extends (h : Spares t u) (ho : t.Ordered → u.Ordered) (i : Nat) : Extends i t u :=
  ⟨fun k e he => ⟨e.frame, h k e he, fun _ => rfl⟩, ho⟩

theorem entries_setFrame (t : ScopeTree) (i k : Nat) (f : Frame) :
    (t.setFrame i f).entries[k]? =
      t.entries[k]?.map fun e => if k = i then { e with frame := f } else e := by
  rw [setFrame, List.getElem?_modify]
  cases t.entries[k]? with
  | none => rfl
  | some e => by_cases h : i = k <;> simp [h, eq_comm]

theorem extends_setFrame (t : ScopeTree) (i : Nat) (f : Frame) : Extends i t (t.setFrame i f) := by
  constructor
  · intro k e he
    rw [entries_setFrame, he, Option.map_some]
    by_cases hk : k = i
    · exact ⟨f, by rw [if_pos hk], fun h => absurd hk h⟩
    · exact ⟨e.frame, by rw [if_neg hk], fun _ => rfl⟩
  · intro ht k e he p hp
    rw [entries_setFrame] at he
    obtain ⟨e', he', rfl⟩ := Option.map_eq_some_iff.1 he
    refine ht k e' he' p ?_
    split at hp <;> exact hp

theorem frame_setFrame (hi : i < t.entries.length) (f : Frame) : (t.setFrame i f).frame i = f := by
  rw [frame, entries_setFrame, List.getElem?_eq_getElem hi]
  simp

/-- All that an evaluation in frame `i` can have changed of what was there is that frame. -/
theorem Extends.spares_setFrame (h : Extends i t u) : Spares (t.setFrame i (u.frame i)) u := by
  intro k e he
  rw [entries_setFrame] at he
  obtain ⟨e', he', rfl⟩ := Option.map_eq_some_iff.1 he
  obtain ⟨f, hf, hsame⟩ := h.entry k e' he'
  by_cases hk : k = i
  · subst hk
    rw [if_pos rfl, hf, frame_some hf]
  · rw [if_neg hk, hf, hsame hk]

theorem spares_child (t : ScopeTree) (k : Nat) (name : String) : Spares t (t.child k name).2 := by
  intro i e he
  have hlt : i < t.entries.length := (List.getElem?_eq_some_iff.1 he).1
  show (t.entries ++ _)[i]? = some e
  rw [List.getElem?_append_left hlt, he]

theorem entries_child (t : ScopeTree) (k : Nat) (name : String) :
    (t.child k name).2.entries[t.entries.length]? =
      some ⟨some k, t.depth k + 1, { name := name }⟩ := by
  show (t.entries ++ _)[t.entries.length]? = _
  rw [List.getElem?_append_right (Nat.le_refl _), Nat.sub_self]
  rfl

theorem ordered_child (hk : k < t.entries.length) (name : String) (ht : t.Ordered) :
    (t.child k name).2.Ordered := by
  intro i e he p hp
  by_cases hi : i < t.entries.length
  · have he' : (t.entries ++ _)[i]? = some e := he
    rw [List.getElem?_append_left hi] at he'
    exact ht i e he' p hp
  · have hlen : i < (t.entries ++ [Entry.mk (some k) (t.depth k + 1) { name := name }]).length :=
      (List.getElem?_eq_some_iff.1 he).1
    rw [List.length_append, List.length_singleton] at hlen
    -- The one entry that is new is the last.
    obtain rfl : i = t.entries.length := by omega
    rw [entries_child] at he
    cases he
    cases hp
    exact hk

/-- The chain of a frame is kept if only frames of larger number change. -/
theorem Extends.scope_eq (h : Extends j t u) (ht : t.Ordered) (hk : k < j)
    (hv : k < t.entries.length) : u.scope k = t.scope k := by
  induction k using Nat.strongRecOn with
  | ind k ih =>
    have he := List.getElem?_eq_getElem hv
    obtain ⟨f, hf, hsame⟩ := h.entry k _ he
    rw [scope_some (h.ordered ht) hf, scope_some ht he, hsame (by omega), outer_some ht he,
      outer_some (h.ordered ht) hf]
    cases hp : t.entries[k].parent with
    | none => rfl
    | some p =>
      have hlt := ht k _ he p hp
      simp only
      rw [ih p hlt (by omega) (by omega)]

theorem Extends.outer_eq (h : Extends i t u) (ht : t.Ordered) (hi : i < t.entries.length) :
    u.outer i = t.outer i := by
  have he := List.getElem?_eq_getElem hi
  obtain ⟨f, hf, -⟩ := h.entry i _ he
  rw [outer_some ht he, outer_some (h.ordered ht) hf]
  cases hp : t.entries[i].parent with
  | none => rfl
  | some p =>
    have hlt := ht i _ he p hp
    exact h.scope_eq ht hlt (by omega)

theorem Extends.lt_length (h : Extends j t u) (hi : i < t.entries.length) : i < u.entries.length := by
  obtain ⟨f, hf, -⟩ := h.entry i _ (List.getElem?_eq_getElem hi)
  exact (List.getElem?_eq_some_iff.1 hf).1

theorem Spares.frame_eq (h : Spares t u) (hi : i < t.entries.length) : u.frame i = t.frame i := by
  have he := List.getElem?_eq_getElem hi
  rw [frame_some he, frame_some (h i _ he)]

end Reckon.ScopeTree
