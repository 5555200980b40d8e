/-!
# Bindings

Names bound to things, each name once.  Binding a name again replaces what it was bound to.
-/

namespace Reckon

/-- Names bound to things of type `α`. -/
abbrev Bindings (α : Type) := List (String × α)

namespace Bindings

variable {α : Type}

/-- What a name is bound to. -/
def get? (b : Bindings α) (name : String) : Option α :=
  match b with
  | [] => none
  | (n, x) :: rest => if n = name then some x else get? rest name

/-- Binds a name, in place of its old binding if it has one. -/
def set (b : Bindings α) (name : String) (value : α) : Bindings α :=
  match b with
  | [] => [(name, value)]
  | (n, x) :: rest => if n = name then (name, value) :: rest else (n, x) :: set rest name value

/-- The bindings in the order of their names. -/
def sorted (b : Bindings α) : Bindings α :=
  b.mergeSort fun x y => decide (x.1 ≤ y.1)

theorem get?_set_self (b : Bindings α) (name : String) (value : α) :
    (b.set name value).get? name = some value := by
  induction b with
  | nil => simp [set, get?]
  | cons p rest ih =>
    obtain ⟨n, x⟩ := p
    by_cases h : n = name
    · simp [set, get?, h]
    · simp [set, get?, h, ih]

theorem get?_set_ne (b : Bindings α) {name other : String} (value : α) (h : other ≠ name) :
    (b.set name value).get? other = b.get? other := by
  induction b with
  | nil => simp [set, get?, Ne.symm h]
  | cons p rest ih =>
    obtain ⟨n, x⟩ := p
    by_cases hn : n = name
    · subst hn
      simp [set, get?, Ne.symm h]
    · simp [set, get?, hn, ih]

/-- Binding a name changes what that name is bound to, and nothing else. -/
theorem get?_set (b : Bindings α) (name other : String) (value : α) :
    (b.set name value).get? other = if other = name then some value else b.get? other := by
  by_cases h : other = name
  · subst h
    simp [get?_set_self]
  · simp [get?_set_ne b value h, h]

theorem mem_of_get? {b : Bindings α} {name : String} {x : α} (h : b.get? name = some x) :
    (name, x) ∈ b := by
  induction b with
  | nil => cases h
  | cons p rest ih =>
    obtain ⟨n, y⟩ := p
    rw [get?] at h
    split at h
    · rename_i hn
      cases h
      rw [hn]
      exact List.mem_cons_self
    · exact List.mem_cons_of_mem _ (ih h)

/-- What is bound afterwards was bound before, or is the new binding. -/
theorem mem_set {b : Bindings α} {x : String} {v : α} {p : String × α} (h : p ∈ b.set x v) :
    p = (x, v) ∨ p ∈ b := by
  induction b with
  | nil => exact .inl (List.mem_singleton.1 h)
  | cons q rest ih =>
    rw [set] at h
    split at h
    · rcases List.mem_cons.1 h with rfl | h
      · exact .inl rfl
      · exact .inr (List.mem_cons_of_mem q h)
    · rcases List.mem_cons.1 h with rfl | h
      · exact .inr List.mem_cons_self
      · exact (ih h).imp_right (List.mem_cons_of_mem q)

end Bindings

end Reckon
