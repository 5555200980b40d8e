import Mathlib.Logic.Relation
import Reckon.Proofs.Matrix.Checked

/-!
# Loops that work in place

A list of rows is changed where it stands: a loop counts indices, reads and writes the entries at them, and
may go on or stop with every round.  Nothing is taken for granted here.  A member that is not there is a
breach when it is read or written (`put`, `cell`, `putCell`, `swap`), and a loop ends only if it comes to a
round that stops it (`Ends`).

A loop that counts through a range treats the members at these indices one after the other.  What it has
done after `n` rounds is a list of its own, the one with `n` members treated (`treated`), so that a round is
an equation between two such lists (`foldlM_range'`).  A loop that has no range ends if its rounds keep an
invariant and a well-founded measure goes down (`Sound.ends`).
-/

namespace Reckon.Matrix.InPlace

open Checked (get)

variable {α β ε σ ρ : Type}

/-! ## Reading and writing -/

/-- Another member in place of the one at an index. -/
def put (xs : List β) (i : Nat) (x : β) : Except Breach (List β) :=
  if i < xs.length then .ok (xs.set i x) else .error .index

/-- The entry in a row and a column. -/
def cell (rows : List (List α)) (r c : Nat) : Except Breach α := do
  let row ← get rows r
  get row c

/-- Another entry in a row and a column. -/
def putCell (rows : List (List α)) (r c : Nat) (x : α) : Except Breach (List (List α)) := do
  let row ← get rows r
  let row ← put row c x
  put rows r row

/-- The members at two indices exchanged. -/
def swap (xs : List β) (i k : Nat) : Except Breach (List β) := do
  let x ← get xs i
  let y ← get xs k
  let xs ← put xs i y
  put xs k x

theorem get_of_some {xs : List β} {i : Nat} {x : β} (h : xs[i]? = some x) : get xs i = .ok x := by
  unfold Checked.get
  rw [h]

theorem put_eq_ok {xs : List β} {i : Nat} (h : i < xs.length) (x : β) : put xs i x = .ok (xs.set i x) :=
  if_pos h

theorem entry_eq_getElem [Scalar α] {row : List α} {c : Nat} (h : c < row.length) : entry row c = row[c] := by
  rw [entry, List.getD_eq_getElem?_getD, List.getElem?_eq_getElem h]
  rfl

theorem cell_eq_ok [Scalar α] {rows : List (List α)} {row : List α} {r c : Nat} (hrow : rows[r]? = some row)
    (hc : c < row.length) : cell rows r c = .ok (entry row c) := by
  rw [cell, get_of_some hrow, ok_bind]
  exact Checked.get_eq_ok hc Scalar.zero

theorem putCell_eq_ok {rows : List (List α)} {row : List α} {r c : Nat} (hrow : rows[r]? = some row)
    (hc : c < row.length) (x : α) : putCell rows r c x = .ok (rows.set r (row.set c x)) := by
  rw [putCell, get_of_some hrow, ok_bind, put_eq_ok hc, ok_bind,
    put_eq_ok (List.getElem?_eq_some_iff.1 hrow).1]

/-- A member behind the first ones comes to the place in front of it, in exchange for the one that stands
there. -/
theorem exists_swap (above : List β) {rest : List β} {first : β} {i : Nat} (hi : i < (first :: rest).length) :
    ∃ chosen others, (first :: rest).getD i first = chosen ∧ ((first :: rest).set i first).drop 1 = others ∧
      (first :: rest)[i] = chosen ∧ others.length = rest.length ∧
      (∀ x ∈ chosen :: others, x ∈ first :: rest) ∧
      swap (above ++ first :: rest) (above.length + i) above.length = .ok (above ++ chosen :: others) := by
  have hlength : (above ++ first :: rest).length = above.length + (rest.length + 1) := by
    rw [List.length_append, List.length_cons]
  rw [List.length_cons] at hi
  have hchosen : get (above ++ first :: rest) (above.length + i) = .ok (first :: rest)[i] :=
    get_of_some (by simp [List.getElem?_append_right])
  have hfirst : get (above ++ first :: rest) above.length = .ok first := get_of_some (by simp)
  refine ⟨(first :: rest)[i], ((first :: rest).set i first).drop 1, ?_, rfl, rfl, by simp, ?_, ?_⟩
  · rw [List.getD_eq_getElem?_getD, List.getElem?_eq_getElem hi]
    rfl
  · refine List.forall_mem_cons.2 ⟨List.getElem_mem hi, fun x hx => ?_⟩
    rcases List.mem_or_eq_of_mem_set (List.mem_of_mem_drop hx) with hx | rfl
    · exact hx
    · exact List.mem_cons_self
  · rw [swap, hchosen, ok_bind, hfirst, ok_bind, put_eq_ok (by omega), ok_bind,
      put_eq_ok (by rw [List.length_set]; omega), List.set_append_right _ _ (by omega),
      List.set_append_right _ _ (by omega), Nat.sub_self, Nat.add_sub_cancel_left]
    cases i <;> rfl

/-! ## Loops over a range -/

/-- The members at `n` indices from `start` on treated, each according to its index. -/
def treated (f : Nat → β → β) (start n : Nat) (xs : List β) : List β :=
  xs.mapIdx fun i x => if start ≤ i ∧ i < start + n then f i x else x

section Treated

variable {f : Nat → β → β} {start n i : Nat} {xs ys : List β}

@[simp]
theorem length_treated : (treated f start n xs).length = xs.length :=
  List.length_mapIdx

theorem getElem_treated (h : i < xs.length) (h' : i < (treated f start n xs).length) :
    (treated f start n xs)[i] = if start ≤ i ∧ i < start + n then f i xs[i] else xs[i] := by
  simp [treated]

/-- At an index that has not been counted yet, all is as it was. -/
theorem getElem?_treated_of_not (hout : ¬ (start ≤ i ∧ i < start + n)) :
    (treated f start n xs)[i]? = xs[i]? := by
  simp [treated, hout]

@[simp]
theorem treated_zero (f : Nat → β → β) (start : Nat) (xs : List β) : treated f start 0 xs = xs :=
  List.ext_getElem? fun _ => getElem?_treated_of_not (by omega)

/-- One member more. -/
theorem set_treated {x : β} (h : xs[start + n]? = some x) :
    (treated f start n xs).set (start + n) (f (start + n) x) = treated f start (n + 1) xs := by
  obtain ⟨hlt, rfl⟩ := List.getElem?_eq_some_iff.1 h
  refine List.ext_getElem (by simp) fun i _ hi => ?_
  rw [length_treated] at hi
  rw [List.getElem_set, getElem_treated hi, getElem_treated hi]
  by_cases heq : start + n = i
  · subst heq
    rw [if_pos rfl, if_pos (by omega)]
  · rw [if_neg heq]
    by_cases hin : start ≤ i ∧ i < start + n
    · rw [if_pos hin, if_pos (by omega)]
    · rw [if_neg hin, if_neg (by omega)]

/-- In front of the range nothing is treated, and from its start on every member is. -/
theorem treated_append (g : β → β) (hstart : xs.length = start) (hn : ys.length ≤ n) :
    treated (fun _ => g) start n (xs ++ ys) = xs ++ ys.map g := by
  refine List.ext_getElem (by simp) fun i hi _ => ?_
  rw [length_treated] at hi
  rw [getElem_treated hi]
  rw [List.length_append] at hi
  by_cases hlt : i < xs.length
  · rw [if_neg (by omega), List.getElem_append_left hlt, List.getElem_append_left hlt]
  · rw [if_pos (by omega), List.getElem_append_right (by omega), List.getElem_append_right (by omega),
      List.getElem_map]

end Treated

/-- **A loop over a range.**  If every round leads from what is to be there before it to what is to be there
behind it, so does the loop. -/
theorem foldlM_range' {body : σ → Nat → Except ε σ} (state : Nat → σ) {start : Nat} (n : Nat)
    (h : ∀ j < n, body (state j) (start + j) = .ok (state (j + 1))) :
    (List.range' start n).foldlM body (state 0) = .ok (state n) := by
  induction n with
  | zero => rfl
  | succ n ih =>
    rw [List.range'_concat, List.foldlM_append, ih fun j hj => h j (by omega), ok_bind, Nat.one_mul,
      List.foldlM_cons, h n (Nat.lt_succ_self n), ok_bind]
    rfl

/-! ## Loops with an end of their own -/

/-- What a round of a loop leads to. -/
inductive Round (σ ρ : Type) where
  /-- The loop ends. -/
  | done (result : ρ)
  /-- There is another round. -/
  | next (state : σ)

/-- The loop goes on to an end, and has this result there. -/
inductive Ends (round : σ → Except Breach (Round σ ρ)) : Round σ ρ → ρ → Prop where
  | done (result : ρ) : Ends round (.done result) result
  | next {state : σ} {o : Round σ ρ} {result : ρ} (ok : round state = .ok o)
      (rest : Ends round o result) : Ends round (.next state) result

/-- From the one the loop comes to the other. -/
def Comes (round : σ → Except Breach (Round σ ρ)) : Round σ ρ → Round σ ρ → Prop :=
  Relation.ReflTransGen fun o o' => ∃ state, o = .next state ∧ round state = .ok o'

/-- A round is sound if it breaches nothing, keeps the invariant, brings the measure down, and has the result
if it is the last one. -/
structure Sound (Inv : σ → Prop) (less : σ → σ → Prop) (result : ρ) (state : σ)
    (o : Except Breach (Round σ ρ)) : Prop where
  ok : ∃ o', o = .ok o'
  keeps : ∀ t, o = .ok (.next t) → Inv t ∧ less t state
  result_eq : ∀ r, o = .ok (.done r) → r = result

section Ends

variable {round : σ → Except Breach (Round σ ρ)} {Inv : σ → Prop} {less : σ → σ → Prop} {result : ρ}
  {state : σ}

theorem Sound.done {r : ρ} (h : r = result) : Sound Inv less result state (.ok (.done r)) where
  ok := ⟨_, rfl⟩
  keeps := nofun
  result_eq := by
    rintro _ ⟨⟩
    exact h

theorem Sound.next {t : σ} (hinv : Inv t) (hless : less t state) :
    Sound Inv less result state (.ok (.next t)) where
  ok := ⟨_, rfl⟩
  keeps := by
    rintro _ ⟨⟩
    exact ⟨hinv, hless⟩
  result_eq := nofun

/-- **A loop whose rounds are sound ends.** -/
theorem Sound.ends (hwf : WellFounded less)
    (h : ∀ s, Inv s → Sound Inv less result s (round s)) (hs : Inv state) :
    Ends round (.next state) result := by
  induction state using hwf.induction with
  | _ state ih =>
    have hsound := h state hs
    obtain ⟨o, ho⟩ := hsound.ok
    cases o with
    | done r =>
      obtain rfl := hsound.result_eq r ho
      exact .next ho (.done r)
    | next t =>
      obtain ⟨hinv, hless⟩ := hsound.keeps t ho
      exact .next ho (ih t hless hinv)

/-- What holds of the first state of a loop and is kept by its rounds holds of all it comes to. -/
theorem Sound.invariant {o : Round σ ρ} (h : ∀ s, Inv s → Sound Inv less result s (round s))
    (ho : ∀ s, o = .next s → Inv s) (hcomes : Comes round o (.next state)) : Inv state := by
  suffices hall : ∀ o', Comes round o o' → ∀ s, o' = .next s → Inv s from hall _ hcomes state rfl
  intro o' ho'
  induction ho' with
  | refl => exact ho
  | tail _ hstep ih =>
    obtain ⟨s, rfl, hround⟩ := hstep
    rintro t rfl
    exact ((h s (ih s rfl)).keeps t hround).1

end Ends

end Reckon.Matrix.InPlace
