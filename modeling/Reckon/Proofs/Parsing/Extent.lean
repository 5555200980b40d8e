import Mathlib.Data.Prod.Lex
import Reckon.Proofs.Parsing.OnDemand
import Reckon.Proofs.Syntax.Contents

/-!
# Nodes in a text

Where a span starts and where it ends are places, ordered by line and then by column.  The places of a
text are in the order of its offsets (`Text.placeAt_lt`), so it is enough to say from which offset to
which one a node reaches.

Nodes are spread over a piece of text if each one starts behind the end of the one before it (`Spread`).
A node sits well if what it consists of is spread over its own span (`Node.Sits`).  There is one
exception: an assignment that applies an operator has its target twice, and its value covers it.  Most
nodes are put together from others so that their span ends where the last one ends, and then they sit
well (`Row.closed_by`).
-/

namespace Reckon

/-! ## Places -/

/-- Where the span starts. -/
def Span.opens (s : Span) : Int ×ₗ Int :=
  toLex (s.startLine, s.startCol)

/-- Where the span ends. -/
def Span.closes (s : Span) : Int ×ₗ Int :=
  toLex (s.endLine, s.endCol)

namespace Text

/-- The place of an offset. -/
def placeAt (source : List Char) (p : Nat) : Int ×ₗ Int :=
  toLex ((lineAt source p : Int), (columnAt source p : Int))

/-- The span from the one offset to the other. -/
def spanAt (file : String) (source : List Char) (p q : Nat) : Span :=
  ⟨file, lineAt source p, columnAt source p, lineAt source q, columnAt source q⟩

variable {source : List Char} {p q : Nat}

theorem placeAt_le (h : p ≤ q) : placeAt source p ≤ placeAt source q := by
  unfold placeAt
  rw [Prod.Lex.toLex_le_toLex]
  rcases place_le source h with hline | ⟨hline, hcol⟩
  · exact .inl (Int.ofNat_lt.2 hline)
  · exact .inr ⟨congrArg Nat.cast hline, Int.ofNat_le.2 hcol⟩

/-- A character takes a column, and a newline takes the rest of its line. -/
theorem placeAt_succ (h : p < source.length) : placeAt source p < placeAt source (p + 1) := by
  have htake : source.take (p + 1) = source.take p ++ [source[p]] := List.take_succ_eq_append_getElem h
  unfold placeAt
  rw [Prod.Lex.toLex_lt_toLex]
  unfold lineAt columnAt
  rw [htake, List.count_append]
  by_cases hline : source[p] = '\n'
  · left
    rw [hline, List.count_singleton_self]
    omega
  · right
    rw [List.rtakeWhile_concat_pos _ _ _ (by simpa using hline), List.count_singleton,
      if_neg (by simpa using hline), List.length_append, List.length_singleton]
    omega

theorem placeAt_lt (h : p < q) (hp : p < source.length) : placeAt source p < placeAt source q :=
  (placeAt_succ hp).trans_le (placeAt_le h)

/-- One column before the end of a text stands its last character, unless a line starts at the end. -/
theorem exists_last (source : List Char) :
    ∃ r, r ≤ source.length ∧ source.length ≤ r + 1 ∧ lineAt source r = lineAt source source.length ∧
      columnAt source r = max 1 (columnAt source source.length - 1) := by
  rcases List.eq_nil_or_concat' source with rfl | ⟨init, c, rfl⟩
  · exact ⟨0, le_rfl, Nat.le_succ _, rfl, rfl⟩
  · by_cases hc : c = '\n'
    · refine ⟨_, le_rfl, Nat.le_succ _, rfl, ?_⟩
      unfold columnAt
      rw [List.take_length, List.rtakeWhile_concat_neg _ _ _ (by simp [hc])]
      rfl
    · refine ⟨init.length, by simp, by simp, ?_, ?_⟩
      · unfold lineAt
        rw [List.take_length, List.take_left, List.count_append, List.count_singleton,
          if_neg (by simpa using hc), Nat.add_zero]
      · unfold columnAt
        rw [List.take_length, List.take_left, List.rtakeWhile_concat_pos _ _ _ (by simpa using hc),
          List.length_append, List.length_singleton]
        omega

end Text

/-! ## Nodes one behind the other -/

/-- The first node ends before the second one starts. -/
def Node.Apart (m n : Node) : Prop :=
  ∃ s t, m.span = some s ∧ n.span = some t ∧ s.closes < t.opens

/-- The nodes are in a piece of the text, that goes from the one offset up to the other one, each behind
the end of the one before it. -/
inductive Spread (file : String) (source : List Char) : Nat → List Node → Nat → Prop where
  | nil {lo hi : Nat} (le : lo ≤ hi) : Spread file source lo [] hi
  | cons {lo p q hi : Nat} {n : Node} {ns : List Node}
      (span : n.span = some (Text.spanAt file source p q)) (behind : lo ≤ p) (le : p ≤ q)
      (within : q < source.length) (rest : Spread file source (q + 1) ns hi) :
      Spread file source lo (n :: ns) hi

variable {file : String} {source : List Char} {lo lo' mid mid' hi hi' p q : Nat} {n e z : Node}
  {ns ms : List Node} {s : Option Span}

namespace Spread

theorem le (h : Spread file source lo ns hi) : lo ≤ hi := by
  induction h with
  | nil le => exact le
  | cons _ _ _ _ _ ih => omega

theorem mono (h : Spread file source lo ns hi) (hlo : lo' ≤ lo) (hhi : hi ≤ hi') :
    Spread file source lo' ns hi' := by
  induction h generalizing lo' with
  | nil le => exact .nil (by omega)
  | cons span behind le within _ ih => exact .cons span (by omega) le within (ih le_rfl hhi)

/-- With anything between the ones and the others. -/
theorem append (h : Spread file source lo ns mid) (hle : mid ≤ mid')
    (h' : Spread file source mid' ms hi) : Spread file source lo (ns ++ ms) hi := by
  induction h with
  | nil le => exact h'.mono (le.trans hle) le_rfl
  | cons span behind le within _ ih => exact .cons span behind le within (ih hle)

/-- Nothing stands behind the last one. -/
theorem concat_tight (h : Spread file source lo (ns ++ [z]) hi) :
    ∃ p q, z.span = some (Text.spanAt file source p q) ∧ lo ≤ q ∧ q < source.length ∧ q < hi ∧
      Spread file source lo (ns ++ [z]) (q + 1) := by
  induction ns generalizing lo with
  | nil =>
    cases h with
    | @cons _ p q _ _ _ span behind le within rest =>
      have hle := rest.le
      exact ⟨p, q, span, by omega, within, by omega, .cons span behind le within (.nil le_rfl)⟩
  | cons m ms ih =>
    cases h with
    | cons span behind le within rest =>
      obtain ⟨p, q, hspan, hlo, hwithin, hhi, hrest⟩ := ih rest
      exact ⟨p, q, hspan, by omega, hwithin, hhi, .cons span behind le within hrest⟩

/-- Each of them is in the piece of text. -/
theorem of_mem (h : Spread file source lo ns hi) (he : e ∈ ns) :
    ∃ p q, e.span = some (Text.spanAt file source p q) ∧ lo ≤ p ∧ p ≤ q ∧ q < source.length ∧
      q < hi := by
  induction h with
  | nil => cases he
  | @cons lo p q hi n ns span behind le within rest ih =>
    rcases List.mem_cons.1 he with rfl | he
    · have hle := rest.le
      exact ⟨p, q, span, behind, le, within, by omega⟩
    · obtain ⟨p', q', hspan, hlo, hle, hwithin, hhi⟩ := ih he
      exact ⟨p', q', hspan, by omega, hle, hwithin, hhi⟩

/-- What is spread over a span is inside of it. -/
theorem inside (h : Spread file source p ns (q + 1)) (he : e ∈ ns) :
    ∃ t, e.span = some t ∧ (Text.spanAt file source p q).opens ≤ t.opens ∧
      t.closes ≤ (Text.spanAt file source p q).closes := by
  obtain ⟨p', q', hspan, hp, -, -, hq⟩ := h.of_mem he
  exact ⟨_, hspan, Text.placeAt_le hp, Text.placeAt_le (Nat.le_of_lt_succ hq)⟩

theorem pairwise (h : Spread file source lo ns hi) : ns.Pairwise Node.Apart := by
  induction h with
  | nil => exact .nil
  | cons span _ _ within rest ih =>
    refine .cons (fun m hm => ?_) ih
    obtain ⟨p', q', hspan, hbehind, -⟩ := rest.of_mem hm
    exact ⟨_, _, span, hspan, Text.placeAt_lt hbehind within⟩

end Spread

/-! ## Trees -/

namespace Node

/-- The node has a span in the text, and what it consists of is spread over it.  Where an operator is
applied to the target of an assignment, this is so of the target and the other operand. -/
inductive Sits (file : String) (source : List Char) : Node → Prop where
  | plain {n : Node} {p q : Nat} (span : n.span = some (Text.spanAt file source p q)) (le : p ≤ q)
      (within : q < source.length) (row : Spread file source p n.components (q + 1)) :
      Sits file source n
  | repeated {target : Identifier} {op : BinaryOp} {e : Node} {s : Option Span} {p q : Nat}
      (span : s = some (Text.spanAt file source p q)) (le : p ≤ q) (within : q < source.length)
      (row : Spread file source p [target.asVar, e] (q + 1)) :
      Sits file source (.assign target (.binary target.asVar op e s) s)

/-- The node and all that it contains sit well. -/
def Orderly (file : String) (source : List Char) (n : Node) : Prop :=
  ∀ e, n.Contains e → e.Sits file source

/-- A node that sits well, in terms of places. -/
theorem Sits.nested (h : e.Sits file source) :
    ∃ p q, e.span = some (Text.spanAt file source p q) ∧ p ≤ q ∧ q < source.length ∧
      (∀ c ∈ e.components, ∃ t, c.span = some t ∧ (Text.spanAt file source p q).opens ≤ t.opens ∧
        t.closes ≤ (Text.spanAt file source p q).closes) ∧
      (e.components.Pairwise Apart ∨ ∃ target op v,
        e = .assign target (.binary target.asVar op v (some (Text.spanAt file source p q)))
          (some (Text.spanAt file source p q)) ∧ [target.asVar, v].Pairwise Apart) := by
  cases h with
  | @plain _ p q span le within row =>
    exact ⟨p, q, span, le, within, fun c => row.inside, .inl row.pairwise⟩
  | @repeated target op v s p q span le within row =>
    subst span
    refine ⟨p, q, rfl, le, within, fun c hc => ?_, .inr ⟨target, op, v, rfl, row.pairwise⟩⟩
    rcases List.mem_cons.1 hc with rfl | hc
    · exact row.inside List.mem_cons_self
    · rw [List.mem_singleton.1 hc]
      exact ⟨_, rfl, le_refl _, le_refl _⟩

theorem Orderly.of_components (h : n.Sits file source)
    (hcomponents : ∀ e ∈ n.components, e.Orderly file source) : n.Orderly file source := by
  intro e he
  rcases he.cases_head with rfl | ⟨c, hc, hce⟩
  · exact h
  · exact hcomponents c hc e hce

end Node

/-- Nodes one behind the other, each of them with all that it contains. -/
structure Row (file : String) (source : List Char) (lo : Nat) (ns : List Node) (hi : Nat) : Prop where
  spread : Spread file source lo ns hi
  orderly : ∀ n ∈ ns, n.Orderly file source

namespace Row

theorem nil (h : lo ≤ hi) : Row file source lo [] hi :=
  ⟨.nil h, by simp⟩

theorem mono (h : Row file source lo ns hi) (hlo : lo' ≤ lo) (hhi : hi ≤ hi') :
    Row file source lo' ns hi' :=
  ⟨h.spread.mono hlo hhi, h.orderly⟩

theorem append (h : Row file source lo ns mid) (hle : mid ≤ mid') (h' : Row file source mid' ms hi) :
    Row file source lo (ns ++ ms) hi :=
  ⟨h.spread.append hle h'.spread, List.forall_mem_append.2 ⟨h.orderly, h'.orderly⟩⟩

/-- A node over what it consists of. -/
theorem node (hspan : n.span = some (Text.spanAt file source p q)) (hlo : lo ≤ p) (hle : p ≤ q)
    (hwithin : q < source.length) (hhi : q < hi) (h : Row file source p n.components (q + 1)) :
    Row file source lo [n] hi := by
  refine ⟨.cons hspan hlo hle hwithin (.nil hhi), fun m hm => ?_⟩
  rw [List.mem_singleton.1 hm]
  exact .of_components (.plain hspan hle hwithin h.spread) h.orderly

/-- A node that ends where the last thing ends that it consists of. -/
theorem closed_by (h : Row file source p (ns ++ [z]) hi) (hlo : lo ≤ p)
    (hs : s = some (Text.spanAt file source p q)) (hcomponents : n.components = ns ++ [z])
    (hspan : n.span = Span.join s z.span) : Row file source lo [n] hi := by
  obtain ⟨p', q', hz, hle, hwithin, hhi, htight⟩ := h.spread.concat_tight
  rw [hs, hz] at hspan
  refine .node hspan hlo hle hwithin hhi ?_
  rw [hcomponents]
  exact ⟨htight, h.orderly⟩

/-- The same, where it also starts with the first of these things. -/
theorem joined (h : Row file source lo (e :: ns ++ [z]) hi)
    (hcomponents : n.components = e :: ns ++ [z]) (hspan : n.span = Span.join e.span z.span) :
    Row file source lo [n] hi := by
  obtain ⟨hspread, horderly⟩ := h
  cases hspread with
  | cons span behind le within rest =>
    have htight : Row file source _ (e :: ns ++ [z]) hi :=
      ⟨.cons span le_rfl le within rest, horderly⟩
    exact htight.closed_by behind span hcomponents hspan

/-- An assignment that applies an operator to its target. -/
theorem repeated {target : Identifier} (op : BinaryOp) (h : Row file source lo [target.asVar, e] hi) :
    Row file source lo [.assign target (.binary target.asVar op e (Span.join target.span e.span))
      (Span.join target.span e.span)] hi := by
  obtain ⟨hspread, horderly⟩ := h
  cases hspread with
  | @cons _ p q _ _ _ span behind le within rest =>
    have hrow : Spread file source p ([target.asVar] ++ [e]) hi :=
      .cons span le_rfl le within rest
    have htarget : target.span = some (Text.spanAt file source p q) := span
    obtain ⟨p', q', hz, hle, hwithin, hhi, htight⟩ := hrow.concat_tight
    have hjoin : Span.join target.span e.span = some (Text.spanAt file source p q') := by
      rw [htarget, hz]
      rfl
    have hvalue : (Node.binary target.asVar op e (Span.join target.span e.span)).Orderly file source :=
      .of_components (.plain hjoin hle hwithin htight) horderly
    refine ⟨.cons hjoin behind hle hwithin (.nil hhi), fun m hm => ?_⟩
    rw [List.mem_singleton.1 hm]
    refine .of_components (.repeated hjoin hle hwithin htight) fun c hc => ?_
    rcases List.mem_cons.1 hc with rfl | hc
    · exact horderly _ List.mem_cons_self
    · rw [List.mem_singleton.1 hc]
      exact hvalue

end Row

end Reckon
