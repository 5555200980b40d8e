import Mathlib.Data.List.Basic
import Mathlib.Data.List.Induction
import Reckon.Proofs.Scope.Chain

/-!
# Scopes and their history

A tree of scopes grows by operations: a scope is made inside another one, a variable is bound or a function
is defined in a scope.  What a name means in a scope, and how deep the scope is, can be said in terms of
the operations alone.  The frames around a scope are found by going from each one to the one that it was
made in (`Path`), and a frame has what was written to it last (`Latest`).  A name means what was written
last in the first frame on that way to which it was ever written (`Nearest`).

Operations may come in any order on any scopes that are there (`Possible`), so a frame can change long after
others were made inside it.  A tree keeps only the frames, their parents and a depth that is stored when a
frame is made; that this is enough is the main statement (`lookup_history`).  Variables and functions are
looked up alike, and what is said of the one name space is said of the other by the same lemmas (`Writes`).
-/

namespace Reckon.ScopeTree

/-- An operation on a scope of a tree. -/
inductive Operation where
  /-- Makes a scope inside this one. -/
  | child (scope : Nat) (name : String)
  | assign (scope : Nat) (name : String) (value : Value)
  | define (scope : Nat) (name : String) (function : Function)

namespace Operation

/-- The scope that the operation is performed on. -/
def scope : Operation → Nat
  | child i _ | assign i _ _ | define i _ _ => i

/-- The operation makes a scope. -/
def isChild : Operation → Bool
  | child _ _ => true
  | _ => false

end Operation

/-- The tree after an operation. -/
def perform (t : ScopeTree) : Operation → ScopeTree
  | .child i name => (t.child i name).2
  | .assign i x v => t.assign i x v
  | .define i f g => t.define i f g

/-- The tree after operations that start with one scope of this name and nothing in it. -/
def grown (name : String) (ops : List Operation) : ScopeTree :=
  ops.foldl perform (root { name := name })

/-! ## Histories -/

/-- How many scopes there are after these operations; they are numbered from zero. -/
def scopes (ops : List Operation) : Nat :=
  1 + ops.countP Operation.isChild

/-- Each operation is performed on a scope that is there. -/
def Possible (ops : List Operation) : Prop :=
  ∀ earlier op later, ops = earlier ++ op :: later → op.scope < scopes earlier

/-- The scope `k` was made inside the scope `i`. -/
def MadeIn (ops : List Operation) (k i : Nat) : Prop :=
  ∃ earlier name later, ops = earlier ++ .child i name :: later ∧ k = scopes earlier

/-- The way from a scope to the first one. -/
inductive Path (ops : List Operation) : Nat → List Nat → Prop where
  | root : Path ops 0 [0]
  | inner {k i : Nat} {is : List Nat} (made : MadeIn ops k i) (outer : Path ops i is) :
      Path ops k (k :: is)

section Writing

variable {α : Type} (write : Nat → String → α → Operation)

/-- This was written last to the name in the scope. -/
def Latest (ops : List Operation) (i : Nat) (x : String) (v : α) : Prop :=
  ∃ earlier later, ops = earlier ++ write i x v :: later ∧ ∀ w, write i x w ∉ later

/-- Of the scopes on the way, `k` is the first one to which the name was ever written, and this was written
there last. -/
def Nearest (ops : List Operation) (is : List Nat) (x : String) (k : Nat) (v : α) : Prop :=
  ∃ inner outer, is = inner ++ k :: outer ∧ (∀ j ∈ inner, ∀ w, write j x w ∉ ops) ∧ Latest write ops k x v

/-- What was written last to the name in the scope is this, or nothing was. -/
def Recorded (ops : List Operation) (i : Nat) (x : String) : Option α → Prop
  | some v => Latest write ops i x v
  | none => ∀ w, write i x w ∉ ops

end Writing

variable {α : Type} {name : String} {ops : List Operation} {op : Operation} {i k s : Nat} {is : List Nat}
  {t : ScopeTree}

theorem scopes_concat (ops : List Operation) (op : Operation) :
    scopes (ops ++ [op]) = scopes ops + if op.isChild then 1 else 0 := by
  unfold scopes
  rw [List.countP_append, List.countP_singleton, Nat.add_assoc]

theorem scopes_le_append (ops later : List Operation) : scopes ops ≤ scopes (ops ++ later) := by
  unfold scopes
  rw [List.countP_append]
  omega

theorem Possible.of_concat (h : Possible (ops ++ [op])) : Possible ops ∧ op.scope < scopes ops := by
  refine ⟨fun earlier op' later hops => h earlier op' (later ++ [op]) ?_, h ops op [] rfl⟩
  rw [hops, List.append_assoc, List.cons_append]

theorem MadeIn.concat (h : MadeIn ops k i) (op : Operation) : MadeIn (ops ++ [op]) k i := by
  obtain ⟨earlier, name, later, rfl, hk⟩ := h
  exact ⟨earlier, name, later ++ [op], by rw [List.append_assoc, List.cons_append], hk⟩

theorem Path.concat (h : Path ops s is) (op : Operation) : Path (ops ++ [op]) s is := by
  induction h with
  | root => exact .root
  | inner made _ ih => exact .inner (made.concat op) ih

/-- Scopes are made inside earlier ones. -/
theorem MadeIn.lt (h : MadeIn ops k i) (hops : Possible ops) : i < k := by
  obtain ⟨earlier, name, later, hsplit, rfl⟩ := h
  exact hops earlier _ later hsplit

/-- Every scope but the first one was made inside another one. -/
theorem exists_madeIn (hk : 0 < k) (hlt : k < scopes ops) : ∃ i, MadeIn ops k i := by
  induction ops using List.reverseRecOn with
  | nil =>
    have hone : k < 1 := hlt
    omega
  | append_singleton ops op ih =>
    by_cases hbefore : k < scopes ops
    · obtain ⟨i, hi⟩ := ih hbefore
      exact ⟨i, hi.concat op⟩
    · rw [scopes_concat] at hlt
      cases op with
      | child i name =>
        have hlast : k < scopes ops + 1 := hlt
        exact ⟨i, ops, name, [], rfl, by omega⟩
      | assign | define => exact absurd hlt hbefore

theorem Possible.exists_path (hops : Possible ops) (hs : s < scopes ops) : ∃ is, Path ops s is := by
  induction s using Nat.strongRecOn with
  | ind s ih =>
    by_cases hzero : s = 0
    · subst hzero
      exact ⟨[0], .root⟩
    · obtain ⟨i, hi⟩ := exists_madeIn (Nat.pos_of_ne_zero hzero) hs
      have hlt := hi.lt hops
      obtain ⟨is, his⟩ := ih i hlt (by omega)
      exact ⟨s :: is, .inner hi his⟩

/-! ## One operation -/

/-- An operation on a scope that is there changes no other frame, and no parent. -/
theorem extends_perform (t : ScopeTree) (hop : op.scope < t.entries.length) :
    Extends op.scope t (t.perform op) := by
  cases op with
  | child i name => exact (t.spares_child i name).extends (ordered_child hop name) i
  | assign i x v => exact extends_setFrame t i _
  | define i f g => exact extends_setFrame t i _

theorem length_setFrame (t : ScopeTree) (i : Nat) (f : Frame) :
    (t.setFrame i f).entries.length = t.entries.length :=
  List.length_modify _ _ _

theorem length_perform (t : ScopeTree) (op : Operation) :
    (t.perform op).entries.length = t.entries.length + if op.isChild then 1 else 0 := by
  cases op with
  | child i name => exact List.length_append
  | assign i x v => exact length_setFrame t i _
  | define i f g => exact length_setFrame t i _

/-- Other frames stay as they are. -/
theorem frame_perform (t : ScopeTree) (hop : op.scope < t.entries.length) (hk : k < t.entries.length)
    (hne : k ≠ op.scope) : (t.perform op).frame k = t.frame k := by
  obtain ⟨f, hf, hsame⟩ := (extends_perform t hop).entry k _ (List.getElem?_eq_getElem hk)
  rw [frame_some hf, frame_some (List.getElem?_eq_getElem hk), hsame hne]

/-! ## The tree and its history -/

theorem grown_concat (name : String) (ops : List Operation) (op : Operation) :
    grown name (ops ++ [op]) = (grown name ops).perform op := by
  unfold grown
  rw [List.foldl_append]
  rfl

theorem length_grown (name : String) (ops : List Operation) :
    (grown name ops).entries.length = scopes ops := by
  induction ops using List.reverseRecOn with
  | nil => rfl
  | append_singleton ops op ih => rw [grown_concat, length_perform, ih, scopes_concat]

theorem ordered_grown (name : String) (hops : Possible ops) : (grown name ops).Ordered := by
  induction ops using List.reverseRecOn with
  | nil => exact ordered_root _
  | append_singleton ops op ih =>
    obtain ⟨hbefore, hop⟩ := hops.of_concat
    rw [grown_concat]
    exact (extends_perform _ ((length_grown name ops).symm ▸ hop)).ordered (ih hbefore)

/-- Once an entry is there its parent and its depth stay. -/
theorem entry_grown (name : String) (hops : Possible (ops ++ [op])) {e : Entry}
    (h : (grown name ops).entries[k]? = some e) :
    ∃ f, (grown name (ops ++ [op])).entries[k]? = some { e with frame := f } := by
  obtain ⟨-, hop⟩ := hops.of_concat
  rw [grown_concat]
  obtain ⟨f, hf, -⟩ := (extends_perform _ ((length_grown name ops).symm ▸ hop)).entry k _ h
  exact ⟨f, hf⟩

theorem depth_concat (name : String) (hops : Possible (ops ++ [op])) (hk : k < scopes ops) :
    (grown name (ops ++ [op])).depth k = (grown name ops).depth k := by
  rw [← length_grown name ops] at hk
  have he := List.getElem?_eq_getElem hk
  obtain ⟨f, hf⟩ := entry_grown name hops he
  rw [depth_some hf, depth_some he]

theorem entry_root (name : String) (hops : Possible ops) :
    ∃ f, (grown name ops).entries[0]? = some ⟨none, 0, f⟩ := by
  induction ops using List.reverseRecOn with
  | nil => exact ⟨_, rfl⟩
  | append_singleton ops op ih =>
    obtain ⟨f, hf⟩ := ih hops.of_concat.1
    exact entry_grown name hops hf

/-- The parent of a scope is the one that it was made in, and it is one deeper than that. -/
theorem entry_madeIn (name : String) (hops : Possible ops) (h : MadeIn ops k i) :
    ∃ f, (grown name ops).entries[k]? = some ⟨some i, (grown name ops).depth i + 1, f⟩ := by
  induction ops using List.reverseRecOn with
  | nil =>
    obtain ⟨earlier, x, later, hsplit, -⟩ := h
    exact absurd hsplit.symm (by simp)
  | append_singleton ops op ih =>
    obtain ⟨earlier, x, later, hsplit, hk⟩ := h
    rcases List.eq_nil_or_concat' later with rfl | ⟨later, last, rfl⟩
    · -- It was made just now.
      obtain ⟨rfl, hop⟩ := List.append_inj' hsplit rfl
      obtain rfl := List.singleton_inj.1 hop
      have hi : i < scopes ops := hops.of_concat.2
      rw [depth_concat name hops hi, grown_concat, hk, ← length_grown name ops]
      exact ⟨_, entries_child _ i x⟩
    · rw [← List.cons_append, ← List.append_assoc] at hsplit
      obtain ⟨rfl, -⟩ := List.append_inj' hsplit rfl
      have hi : i < scopes (earlier ++ .child i x :: later) :=
        Nat.lt_of_lt_of_le (hops.of_concat.1 earlier _ later rfl) (scopes_le_append _ _)
      obtain ⟨f, hf⟩ := ih hops.of_concat.1 ⟨earlier, x, later, rfl, hk⟩
      rw [depth_concat name hops hi]
      exact entry_grown name hops hf

/-- Going from parent to parent is going along the history. -/
theorem path_grown (name : String) (hops : Possible ops) (h : Path ops s is) :
    (grown name ops).path s = is := by
  induction h with
  | root =>
    obtain ⟨f, hf⟩ := entry_root name hops
    rw [path_some (ordered_grown name hops) hf]
  | inner made _ ih =>
    obtain ⟨f, hf⟩ := entry_madeIn name hops made
    rw [path_some (ordered_grown name hops) hf]
    exact congrArg _ ih

/-- The depth that is stored with a scope is the number of scopes around it. -/
theorem depth_grown (name : String) (hops : Possible ops) (h : Path ops s is) :
    (grown name ops).depth s + 1 = is.length := by
  induction h with
  | root =>
    obtain ⟨f, hf⟩ := entry_root name hops
    rw [depth_some hf]
    rfl
  | inner made _ ih =>
    obtain ⟨f, hf⟩ := entry_madeIn name hops made
    rw [depth_some hf, List.length_cons, ← ih]

/-! ## What is written -/

/-- The operations write to this part of a frame, each to its name in its scope, and no other operation
changes it. -/
structure Writes (write : Nat → String → α → Operation) (slot : Frame → Bindings α) : Prop where
  inj : ∀ {i x y v w}, write i x v = write i y w → x = y ∧ v = w
  scope : ∀ i x v, (write i x v).scope = i
  blank : ∀ name, slot { name := name } = []
  written : ∀ (t : ScopeTree) {i : Nat} (x : String) (v : α), i < t.entries.length →
    slot ((t.perform (write i x v)).frame i) = (slot (t.frame i)).set x v
  kept : ∀ (t : ScopeTree) {op : Operation} {i : Nat}, (∀ x v, op ≠ write i x v) →
    slot ((t.perform op).frame i) = slot (t.frame i)

theorem frame_of_le (h : t.entries.length ≤ i) : t.frame i = {} := by
  rw [frame, List.getElem?_eq_none h]

/-- A frame that is made has nothing in it, as if it had always been there. -/
theorem slot_child (slot : Frame → Bindings α) (hblank : ∀ name, slot { name := name } = []) (t : ScopeTree)
    (k i : Nat) (name : String) : slot ((t.child k name).2.frame i) = slot (t.frame i) := by
  rcases Nat.lt_trichotomy i t.entries.length with hlt | rfl | hgt
  · rw [(t.spares_child k name).frame_eq hlt]
  · rw [frame_of_le (Nat.le_refl _), frame_some (entries_child t k name), hblank, hblank]
  · rw [frame_of_le (Nat.le_of_lt hgt), frame_of_le]
    show (t.entries ++ _).length ≤ i
    rw [List.length_append, List.length_singleton]
    exact hgt

/-- Another frame changes this part of a frame only if it differs there and stands in its place. -/
theorem slot_setFrame {slot : Frame → Bindings α} (t : ScopeTree) {f : Frame}
    (h : i = k → slot f = slot (t.frame k)) : slot ((t.setFrame k f).frame i) = slot (t.frame i) := by
  by_cases hk : i = k
  · subst hk
    by_cases hlt : i < t.entries.length
    · rw [frame_setFrame hlt, h rfl]
    · have hle := Nat.le_of_not_lt hlt
      rw [frame_of_le hle, frame_of_le (by rwa [length_setFrame])]
  · rw [frame, frame, entries_setFrame]
    cases t.entries[i]? with
    | none => rfl
    | some e => rw [Option.map_some, if_neg hk]

theorem writes_assign : Writes .assign Frame.vars where
  inj h := by
    cases h
    exact ⟨rfl, rfl⟩
  scope _ _ _ := rfl
  blank _ := rfl
  written t i x v hi := congrArg Frame.vars (frame_setFrame hi ((t.frame i).assign x v))
  kept t op i hne := by
    cases op with
    | child k name => exact slot_child Frame.vars (fun _ => rfl) t k i name
    | assign k x v => exact slot_setFrame t fun hk => absurd (hk ▸ rfl) (hne x v)
    | define k f g => exact slot_setFrame t fun _ => rfl

theorem writes_define : Writes .define Frame.functions where
  inj h := by
    cases h
    exact ⟨rfl, rfl⟩
  scope _ _ _ := rfl
  blank _ := rfl
  written t i x v hi := congrArg Frame.functions (frame_setFrame hi ((t.frame i).define x v))
  kept t op i hne := by
    cases op with
    | child k name => exact slot_child Frame.functions (fun _ => rfl) t k i name
    | assign k x v => exact slot_setFrame t fun _ => rfl
    | define k f g => exact slot_setFrame t fun hk => absurd (hk ▸ rfl) (hne f g)

section Lookup

variable {write : Nat → String → α → Operation} {slot : Frame → Bindings α} {x : String} {r : Option α}

/-- What is written just now was written last. -/
theorem recorded_written (hw : Writes write slot) (ops : List Operation) (i : Nat) (x : String) (v : α) :
    Recorded write (ops ++ [write i x v]) i x r ↔ r = some v := by
  cases r with
  | none =>
    have hmem : write i x v ∈ ops ++ [write i x v] := List.mem_append_right ops (List.mem_singleton_self _)
    exact iff_of_false (fun hnever => hnever v hmem) (by simp)
  | some w =>
    constructor
    · rintro ⟨earlier, later, hsplit, hlast⟩
      rcases List.eq_nil_or_concat' later with rfl | ⟨later, last, rfl⟩
      · obtain ⟨-, hop⟩ := List.append_inj' hsplit rfl
        rw [(hw.inj (List.singleton_inj.1 hop)).2]
      · rw [← List.cons_append, ← List.append_assoc] at hsplit
        obtain ⟨-, hop⟩ := List.append_inj' hsplit rfl
        exact absurd (by simp [List.singleton_inj.1 hop]) (hlast v)
    · intro hv
      cases hv
      exact ⟨ops, [], rfl, fun w => List.not_mem_nil⟩

/-- Other operations leave the record as it is. -/
theorem recorded_kept (hop : ∀ v, op ≠ write i x v) :
    Recorded write (ops ++ [op]) i x r ↔ Recorded write ops i x r := by
  have hlater : ∀ (later : List Operation) w, write i x w ∉ later ++ [op] ↔ write i x w ∉ later := by
    intro later w
    simp [Ne.symm (hop w)]
  cases r with
  | none => exact forall_congr' fun w => hlater ops w
  | some v =>
    constructor
    · rintro ⟨earlier, later, hsplit, hlast⟩
      rcases List.eq_nil_or_concat' later with rfl | ⟨later, last, rfl⟩
      · obtain ⟨-, heq⟩ := List.append_inj' hsplit rfl
        exact absurd (List.singleton_inj.1 heq) (hop v)
      · rw [← List.cons_append, ← List.append_assoc] at hsplit
        obtain ⟨rfl, heq⟩ := List.append_inj' hsplit rfl
        obtain rfl := List.singleton_inj.1 heq
        exact ⟨earlier, later, rfl, fun w => (hlater later w).1 (hlast w)⟩
    · rintro ⟨earlier, later, rfl, hlast⟩
      refine ⟨earlier, later ++ [op], by rw [List.append_assoc, List.cons_append], fun w => ?_⟩
      exact (hlater later w).2 (hlast w)

/-- A frame has what was written to it last. -/
theorem get?_grown (hw : Writes write slot) (name : String) (hops : Possible ops) (i : Nat) (x : String) :
    (slot ((grown name ops).frame i)).get? x = r ↔ Recorded write ops i x r := by
  induction ops using List.reverseRecOn with
  | nil =>
    have hnone : (slot ((grown name []).frame i)).get? x = none := by
      have hblank : slot ((grown name []).frame i) = [] := by
        cases i with
        | zero => exact hw.blank name
        | succ i => exact hw.blank ""
      rw [hblank]
      rfl
    rw [hnone]
    cases r with
    | none => exact iff_of_true rfl fun w => List.not_mem_nil
    | some v =>
      refine iff_of_false (by simp) ?_
      rintro ⟨earlier, later, hsplit, -⟩
      exact absurd hsplit.symm (by simp)
  | append_singleton ops op ih =>
    obtain ⟨hbefore, hscope⟩ := hops.of_concat
    rw [← length_grown name ops] at hscope
    have ih := ih hbefore
    rw [grown_concat]
    by_cases hop : ∃ y v, op = write i y v
    · obtain ⟨y, v, rfl⟩ := hop
      rw [hw.scope] at hscope
      rw [hw.written _ y v hscope, Bindings.get?_set]
      by_cases hxy : x = y
      · subst hxy
        rw [if_pos rfl, recorded_written hw, eq_comm]
      · rw [if_neg hxy, ih, recorded_kept fun w heq => hxy (hw.inj heq).1.symm]
    · rw [hw.kept _ fun y v heq => hop ⟨y, v, heq⟩, ih, recorded_kept fun w heq => hop ⟨x, w, heq⟩]

/-- What is written to the name in the first frame on the way that has it, and which frame that is. -/
def nearest? (slot : Frame → Bindings α) (t : ScopeTree) (is : List Nat) (x : String) : Option (α × Nat) :=
  is.findSome? fun j => ((slot (t.frame j)).get? x).map (·, j)

theorem nearest?_grown (hw : Writes write slot) (name : String) (hops : Possible ops) (is : List Nat)
    (x : String) (v : α) (k : Nat) :
    nearest? slot (grown name ops) is x = some (v, k) ↔ Nearest write ops is x k v := by
  rw [nearest?, List.findSome?_eq_some_iff]
  constructor
  · rintro ⟨inner, j, outer, hsplit, hfound, hinner⟩
    obtain ⟨w, hget, heq⟩ := Option.map_eq_some_iff.1 hfound
    cases heq
    refine ⟨inner, outer, hsplit, fun m hm => ?_, (get?_grown hw name hops _ x).1 hget⟩
    exact (get?_grown hw name hops m x).1 (Option.map_eq_none_iff.1 (hinner m hm))
  · rintro ⟨inner, outer, hsplit, hinner, hlatest⟩
    have hget := (get?_grown (r := some v) hw name hops k x).2 hlatest
    refine ⟨inner, k, outer, hsplit, by rw [hget]; rfl, fun m hm => ?_⟩
    have hnone := (get?_grown (r := none) hw name hops m x).2 (hinner m hm)
    rw [hnone]
    rfl

theorem nearest?_grown_none (hw : Writes write slot) (name : String) (hops : Possible ops) (is : List Nat)
    (x : String) :
    nearest? slot (grown name ops) is x = none ↔ ∀ j ∈ is, ∀ w, write j x w ∉ ops := by
  rw [nearest?, List.findSome?_eq_none_iff]
  refine forall₂_congr fun j _ => ?_
  rw [Option.map_eq_none_iff]
  exact get?_grown hw name hops j x

/-- What a lookup answers that fails if nothing is found. -/
theorem answer_grown {β : Type} (hw : Writes write slot) (name : String) (hops : Possible ops)
    (is : List Nat) (x : String) (shown : α × Nat → β) (failure : Failure) {answer : Except Failure β}
    (hanswer : answer = (nearest? slot (grown name ops) is x).elim (.error failure) (.ok <| shown ·)) :
    (∀ y, answer = .ok y ↔ ∃ k v, Nearest write ops is x k v ∧ shown (v, k) = y) ∧
      ∀ e, answer = .error e ↔ e = failure ∧ ∀ k ∈ is, ∀ w, write k x w ∉ ops := by
  have hsome := nearest?_grown hw name hops is x
  have hnone := nearest?_grown_none hw name hops is x
  subst hanswer
  cases hfound : nearest? slot (grown name ops) is x with
  | none =>
    rw [hfound] at hsome hnone
    refine ⟨fun y => iff_of_false (by simp) ?_, fun e => ?_⟩
    · rintro ⟨k, v, hk, -⟩
      cases (hsome v k).2 hk
    · exact ⟨fun he => ⟨(Except.error.inj he).symm, hnone.1 rfl⟩, fun he => congrArg _ he.1.symm⟩
  | some r =>
    obtain ⟨w, j⟩ := r
    rw [hfound] at hsome hnone
    refine ⟨fun y => ⟨fun hy => ?_, ?_⟩, fun e => iff_of_false (by simp) fun he => ?_⟩
    · exact ⟨j, w, (hsome w j).1 rfl, Except.ok.inj hy⟩
    · rintro ⟨k, v, hk, hy⟩
      cases (hsome v k).2 hk
      exact congrArg _ hy
    · cases hnone.2 he.2

end Lookup

/-! ## Lookups -/

theorem Possible.concat (hops : Possible ops) (hop : op.scope < scopes ops) : Possible (ops ++ [op]) := by
  intro earlier op' later hsplit
  rcases List.eq_nil_or_concat' later with rfl | ⟨later, last, rfl⟩
  · obtain ⟨rfl, heq⟩ := List.append_inj' hsplit rfl
    rwa [← List.singleton_inj.1 heq]
  · rw [← List.cons_append, ← List.append_assoc] at hsplit
    exact hops earlier op' later (List.append_inj' hsplit rfl).1

theorem find_eq (t : ScopeTree) (s : Nat) (x : String) :
    t.find s x = (nearest? Frame.vars t (t.path s) x).elim (.error (.ofCause (.undeclaredVariable x)))
      (.ok ·.1) := by
  have hpairs : (t.scope s).findVariable? x = (nearest? Frame.vars t (t.path s) x).map Prod.fst := by
    rw [nearest?, List.map_findSome?, scope, Scope.findVariable?, List.findSome?_map]
    refine congrArg (List.findSome? · (t.path s)) (funext fun j => ?_)
    show (t.frame j).vars.get? x = Option.map Prod.fst (((t.frame j).vars.get? x).map (·, j))
    cases (t.frame j).vars.get? x <;> rfl
  rw [find, hpairs]
  cases nearest? Frame.vars t (t.path s) x <;> rfl

theorem findFunction_eq (t : ScopeTree) (s : Nat) (f : String) :
    t.findFunction s f =
      (nearest? Frame.functions t (t.path s) f).elim (.error (.ofCause (.undefinedFunction f))) .ok := by
  rw [findFunction, ← nearest?]
  cases nearest? Frame.functions t (t.path s) f <;> rfl

/-- The frames on the way to the first one are not changed by an operation elsewhere, nor is the way. -/
theorem perform_elsewhere (name : String) (hops : Possible ops) (hpath : Path ops s is)
    (hop : op.scope < scopes ops) (helse : op.scope ∉ is) :
    (grown name (ops ++ [op])).path s = (grown name ops).path s ∧
      ∀ j ∈ is, (grown name (ops ++ [op])).frame j = (grown name ops).frame j := by
  refine ⟨?_, fun j hj => ?_⟩
  · rw [path_grown name (hops.concat hop) (hpath.concat op), path_grown name hops hpath]
  · rw [← length_grown name ops] at hop
    have hlt : j < (grown name ops).entries.length := by
      rw [← path_grown name hops hpath] at hj
      exact lt_length_of_mem_pathFrom hj
    rw [grown_concat]
    exact frame_perform _ hop hlt fun heq => helse (heq ▸ hj)

theorem nearest?_congr {slot : Frame → Bindings α} {t u : ScopeTree} (h : ∀ j ∈ is, u.frame j = t.frame j)
    (x : String) : nearest? slot u is x = nearest? slot t is x := by
  have hmap : is.map (fun j => ((slot (u.frame j)).get? x).map (·, j)) =
      is.map fun j => ((slot (t.frame j)).get? x).map (·, j) :=
    List.map_congr_left fun j hj => by rw [h j hj]
  have hid : ∀ v : ScopeTree, nearest? slot v is x =
      (is.map fun j => ((slot (v.frame j)).get? x).map (·, j)).findSome? id := fun v => by
    rw [List.findSome?_map]
    rfl
  rw [hid, hid, hmap]

/-- **A tree of scopes answers as its history says.**  After any operations on any scopes, a scope has one way
to the first one, and is as deep as that way is long.  A variable means what was last assigned to it in the
nearest scope on the way to which it was ever assigned, and is undeclared if there is none.  A function means
what it was last defined as in the nearest scope that ever defined it, and is found with that scope.  A further
operation on a scope that is not on the way changes no lookup. -/
theorem lookup_history (name : String) (hops : Possible ops) (hs : s < scopes ops) :
    ∃ is, Path ops s is ∧ (∀ js, Path ops s js → js = is) ∧ (grown name ops).depth s + 1 = is.length ∧
      (∀ x, (∀ v, (grown name ops).find s x = .ok v ↔ ∃ k, Nearest .assign ops is x k v) ∧
        ∀ e, (grown name ops).find s x = .error e ↔
          e = .ofCause (.undeclaredVariable x) ∧ ∀ k ∈ is, ∀ v, .assign k x v ∉ ops) ∧
      (∀ f, (∀ g k, (grown name ops).findFunction s f = .ok (g, k) ↔ Nearest .define ops is f k g) ∧
        ∀ e, (grown name ops).findFunction s f = .error e ↔
          e = .ofCause (.undefinedFunction f) ∧ ∀ k ∈ is, ∀ g, .define k f g ∉ ops) ∧
      ∀ op, op.scope < scopes ops → op.scope ∉ is → ∀ x,
        (grown name (ops ++ [op])).local? s x = (grown name ops).local? s x ∧
        (grown name (ops ++ [op])).find s x = (grown name ops).find s x ∧
        (grown name (ops ++ [op])).findFunction s x = (grown name ops).findFunction s x := by
  obtain ⟨is, hpath⟩ := hops.exists_path hs
  have hway := path_grown name hops hpath
  refine ⟨is, hpath, fun js hjs => (path_grown name hops hjs).symm.trans hway, depth_grown name hops hpath,
    fun x => ?_, fun f => ?_, fun op hop helse x => ?_⟩
  · have hfind := find_eq (grown name ops) s x
    rw [hway] at hfind
    obtain ⟨hok, herror⟩ := answer_grown writes_assign name hops is x Prod.fst _ hfind
    refine ⟨fun v => (hok v).trans (exists_congr fun k => ?_), herror⟩
    simp only [exists_eq_right]
  · have hfind := findFunction_eq (grown name ops) s f
    rw [hway] at hfind
    obtain ⟨hok, herror⟩ := answer_grown writes_define name hops is f id _ hfind
    refine ⟨fun g k => (hok (g, k)).trans ⟨?_, fun hk => ⟨k, g, hk, rfl⟩⟩, herror⟩
    rintro ⟨j, h, hj, heq⟩
    cases heq
    exact hj
  · obtain ⟨hsame, hframes⟩ := perform_elsewhere name hops hpath hop helse
    have hself : s ∈ is := by cases hpath <;> exact List.mem_cons_self
    refine ⟨?_, ?_, ?_⟩
    · rw [local?, local?, hframes s hself]
    · rw [find_eq, find_eq, hsame, hway, nearest?_congr hframes]
    · rw [findFunction_eq, findFunction_eq, hsame, hway, nearest?_congr hframes]

/-- A scope that was made early sees a variable of the first scope as it is now, past one in which only
another variable was assigned. -/
theorem lookup_history_late :
    ∃ ops, Possible ops ∧ 2 < scopes ops ∧ (grown "outer" ops).depth 2 = 2 ∧
      (grown "outer" ops).find 2 "x" = .ok (.boolean false) ∧
      (grown "outer" ops).find 2 "z" = .error (.ofCause (.undeclaredVariable "z")) := by
  let ops : List Operation := [.child 0 "middle", .assign 0 "x" (.boolean true), .child 1 "inner",
    .assign 1 "y" (.boolean true), .assign 0 "x" (.boolean false)]
  have hnil : Possible [] := fun earlier op later hsplit => absurd hsplit.symm (by simp)
  have hone : Possible (ops.take 1) := hnil.concat (by decide)
  have htwo : Possible (ops.take 2) := hone.concat (by decide)
  have hthree : Possible (ops.take 3) := htwo.concat (by decide)
  have hfour : Possible (ops.take 4) := hthree.concat (by decide)
  have hops : Possible ops := hfour.concat (by decide)
  have hpath : Path ops 2 [2, 1, 0] :=
    .inner ⟨ops.take 2, "inner", ops.drop 3, rfl, rfl⟩ (.inner ⟨[], "middle", _, rfl, rfl⟩ .root)
  obtain ⟨is, -, hunique, hdepth, hvars, -, -⟩ := lookup_history "outer" hops (s := 2) (by decide)
  obtain rfl := hunique _ hpath
  refine ⟨ops, hops, by decide, Nat.succ.inj hdepth, ((hvars "x").1 _).2 ⟨0, ?_⟩, ((hvars "z").2 _).2 ⟨rfl, ?_⟩⟩
  · exact ⟨[2, 1], [], rfl, by simp [ops], ops.dropLast, [], rfl, by simp⟩
  · simp [ops]

end Reckon.ScopeTree
