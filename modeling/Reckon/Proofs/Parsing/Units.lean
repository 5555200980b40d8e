import Reckon.Proofs.Parsing.Accounted
import Reckon.Proofs.Parsing.Extent

/-!
# Units touch their numbers

A parser takes a name for the unit of the number before it by looking at lines and columns: the name has to start
one column behind the end of the number.  A number has no newline in it, so this place is the one behind its last
character, and different characters have different places.  So the name starts right there in the text, with
nothing in between (`Token.Exact.touches_iff`), whatever line it is on and whatever stands around.

So a number literal has a unit exactly if a name that is the symbol of a unit starts where the numeral ends; else it
has none and nothing but the numeral was taken for it, and a name behind it is mentioned by another node
(`Node.units_attach`).
-/

namespace Reckon

namespace Text

variable {source : List Char} {p q : Nat}

/-- Different places in a text have different lines or columns. -/
theorem placeAt_injective (hp : p ≤ source.length) (hq : q ≤ source.length)
    (h : placeAt source p = placeAt source q) : p = q := by
  rcases Nat.lt_trichotomy p q with hlt | heq | hlt
  · exact absurd h (ne_of_lt (placeAt_lt hlt (by omega)))
  · exact heq
  · exact absurd h (ne_of_gt (placeAt_lt hlt (by omega)))

/-- A character that is no newline takes a column. -/
theorem placeAt_next (hp : p < source.length) (h : source[p] ≠ '\n') :
    lineAt source (p + 1) = lineAt source p ∧ columnAt source (p + 1) = columnAt source p + 1 := by
  have htake : source.take (p + 1) = source.take p ++ [source[p]] := List.take_succ_eq_append_getElem hp
  unfold lineAt columnAt
  rw [htake, List.count_append, List.count_singleton, if_neg (by simpa using h),
    List.rtakeWhile_concat_pos _ _ _ (by simpa using h), List.length_append, List.length_singleton]
  omega

end Text

theorem LengthUnit.ofSymbol?_eq_some_iff {s : String} {m : LengthUnit} :
    ofSymbol? s = some m ↔ s = m.symbol := by
  constructor
  · intro h
    have hfound := List.find?_some h
    exact (beq_iff_eq.1 hfound).symm
  · rintro rfl
    cases m <;> rfl

namespace Token

variable {file : String} {source : List Char} {t u w : Token} {m : LengthUnit}

/-- The second token is a name, the symbol of this unit, and stands right behind the first one. -/
def Attaches (t u : Token) (m : LengthUnit) : Prop :=
  u.kind = .identifier ∧ u.text = m.symbol ∧ u.offset = t.offset + t.text.length

/-- The token starts where its offset says. -/
structure Placed (source : List Char) (u : Token) : Prop where
  le : u.offset ≤ source.length
  startLine : u.span.startLine = Text.lineAt source u.offset
  startCol : u.span.startCol = Text.columnAt source u.offset

theorem Exact.length_pos (h : t.Exact file source) : 0 < t.text.length := by
  rw [← String.length_toList]
  exact List.length_pos_iff.2 h.lexeme.ne_nil

theorem Exact.end_le (h : t.Exact file source) : t.offset + t.text.length ≤ source.length := by
  have hlength := h.stands.length_le
  have hpos := h.length_pos
  rw [String.length_toList, List.length_drop] at hlength
  omega

theorem Exact.placed (h : t.Exact file source) : t.Placed source := by
  have hle := h.end_le
  exact ⟨by omega, h.startLine, h.startCol⟩

theorem AtEnd.placed (h : t.AtEnd file source) : t.Placed source :=
  ⟨Nat.le_of_eq h.offset, h.offset ▸ h.startLine, h.offset ▸ h.startCol⟩

/-- Being next to each other by lines and columns is being next to each other in the text. -/
theorem Exact.touches_iff (ht : t.Exact file source) (hk : t.kind ≠ .newline) (hu : u.Placed source) :
    t.Touches u ↔ u.offset = t.offset + t.text.length := by
  have hpos := ht.length_pos
  have hend := ht.end_le
  obtain ⟨p, hp⟩ : ∃ p, t.offset + t.text.length = p + 1 := ⟨t.offset + t.text.length - 1, by omega⟩
  have hlt : p < source.length := by omega
  have hlast : source[p] ≠ '\n' := by
    obtain ⟨rest, hrest⟩ := ht.stands
    have hget : (source.drop t.offset)[p - t.offset]? = some source[p] := by
      rw [List.getElem?_drop, Nat.add_sub_cancel' (by omega), List.getElem?_eq_getElem hlt]
    rw [← hrest, List.getElem?_append_left (by rw [String.length_toList]; omega)] at hget
    exact fun hnewline => ht.lexeme.newline_notMem hk (hnewline ▸ List.mem_of_getElem? hget)
  obtain ⟨hline, hcolumn⟩ := Text.placeAt_next hlt hlast
  have hplace : t.Touches u ↔ Text.placeAt source u.offset = Text.placeAt source (p + 1) := by
    unfold Touches Text.placeAt
    rw [hu.startLine, hu.startCol, ht.endLine, ht.endCol, hline, hcolumn, hp, Nat.add_sub_cancel,
      toLex_inj, Prod.mk.injEq]
    push_cast
    rfl
  rw [hplace, hp]
  constructor
  · exact Text.placeAt_injective hu.le (by omega)
  · intro hoffset
    rw [hoffset]

/-- What is taken for a unit is the symbol of a unit right behind the number. -/
theorem Exact.unit?_eq_some_iff (ht : t.Exact file source) (hk : t.kind = .number) (hu : u.Placed source) :
    t.unit? u = some m ↔ t.Attaches u m := by
  have htouches : u.span.startLine = t.span.endLine ∧ u.span.startCol = t.span.endCol + 1 ↔
      u.offset = t.offset + t.text.length := ht.touches_iff (by rw [hk]; decide) hu
  unfold unit? Attaches
  by_cases hnear : u.kind = .identifier ∧ u.span.startLine = t.span.endLine ∧
      u.span.startCol = t.span.endCol + 1
  · rw [if_pos hnear, LengthUnit.ofSymbol?_eq_some_iff]
    exact ⟨fun hsymbol => ⟨hnear.1, hsymbol, htouches.1 hnear.2⟩, fun h => h.2.1⟩
  · rw [if_neg hnear]
    exact ⟨nofun, fun h => absurd ⟨h.1, htouches.2 h.2.2⟩ hnear⟩

/-- Among these tokens, the number is read as the node: a literal of its value, which has a unit exactly if one of
the tokens is the symbol of this unit and stands right behind the number.  With a unit, the literal reaches to the
end of its symbol, and without one, to the end of the number. -/
def ReadAs (ts : List Token) (t : Token) (n : Node) : Prop :=
  ∃ unit s, n = .literal (.number t.value unit) (some s) ∧
    (∀ m, unit = some m ↔ ∃ u ∈ ts, t.Attaches u m) ∧
    (∀ u ∈ ts, ∀ m, t.Attaches u m → s = t.span.upTo u.span) ∧ (unit = none → s = t.span)

/-- The second token stands behind the first one. -/
def Precedes (t u : Token) : Prop :=
  t.offset < u.offset ∧ t.offset + t.text.length ≤ u.offset

theorem Covers.precedes {ts : List Token} {p q : Nat} (h : Covers file source p ts q) :
    ts.Pairwise Precedes := by
  induction h with
  | nil => exact .nil
  | cons _ _ exact rest ih =>
    refine .cons (fun u hu => ?_) ih
    have hpos := exact.length_pos
    have hle := (rest.offsets.1 u hu).1
    exact ⟨by omega, hle⟩

/-- Only the next token can stand right behind a token. -/
theorem eq_of_offset {earlier later : List Token} (h : (earlier ++ t :: u :: later).Pairwise Precedes)
    (ht : 0 < t.text.length) (hw : w ∈ earlier ++ t :: u :: later)
    (hoffset : w.offset = t.offset + t.text.length) : w = u := by
  obtain ⟨-, hrest, hearlier⟩ := List.pairwise_append.1 h
  obtain ⟨hnext, hlater⟩ := List.pairwise_cons.1 hrest
  have hu := (hnext u List.mem_cons_self).2
  rcases List.mem_append.1 hw with hw | hw
  · have hbefore := (hearlier w hw t List.mem_cons_self).1
    omega
  rcases List.mem_cons.1 hw with rfl | hw
  · omega
  rcases List.mem_cons.1 hw with rfl | hw
  · rfl
  · have hbehind := ((List.pairwise_cons.1 hlater).1 w hw).1
    omega

theorem readAs_literal {earlier later : List Token}
    (h : (earlier ++ t :: u :: later).Pairwise Precedes) (ht : t.Exact file source) (hk : t.kind = .number)
    (hu : u.Placed source) : t.ReadAs (earlier ++ t :: u :: later) (t.literal u) := by
  have hmem : u ∈ earlier ++ t :: u :: later := by simp
  have hnext : ∀ w ∈ earlier ++ t :: u :: later, ∀ m, t.Attaches w m → w = u :=
    fun w hw m hattaches => eq_of_offset h ht.length_pos hw hattaches.2.2
  have hiff : ∀ m, t.unit? u = some m ↔ ∃ w ∈ earlier ++ t :: u :: later, t.Attaches w m := by
    intro m
    rw [ht.unit?_eq_some_iff hk hu]
    constructor
    · exact fun hattaches => ⟨u, hmem, hattaches⟩
    · rintro ⟨w, hw, hattaches⟩
      rwa [hnext w hw m hattaches] at hattaches
  unfold literal
  cases hunit : t.unit? u with
  | none =>
    refine ⟨none, t.span, rfl, hunit ▸ hiff, fun w hw m hattaches => ?_, fun _ => rfl⟩
    have hsome := (hiff m).2 ⟨w, hw, hattaches⟩
    rw [hunit] at hsome
    cases hsome
  | some m =>
    refine ⟨some m, _, rfl, hunit ▸ hiff, fun w hw m' hattaches => ?_, fun hnone => by cases hnone⟩
    rw [hnext w hw m' hattaches]

/-- The numbers among tokens are read as their literals, one by one. -/
theorem forall₂_numerals (earlier : List Token) {ts : List Token} {last : Token}
    (h : (earlier ++ (ts ++ [last])).Pairwise Precedes) (hts : ∀ t ∈ ts, t.Exact file source)
    (hlast : last.Placed source) :
    List.Forall₂ (ReadAs (earlier ++ (ts ++ [last]))) (ts.filter fun t => t.kind = .number)
      (numerals (ts ++ [last])) := by
  induction ts generalizing earlier with
  | nil => exact .nil
  | cons t ts ih =>
    obtain ⟨ht, hexact⟩ := List.forall_mem_cons.1 hts
    obtain ⟨u, later, hlater⟩ : ∃ u later, ts ++ [last] = u :: later :=
      List.exists_cons_of_ne_nil (by simp)
    have hmove : earlier ++ (t :: ts ++ [last]) = (earlier ++ [t]) ++ (ts ++ [last]) := by simp
    rw [hmove] at h ⊢
    have hrest := ih (earlier ++ [t]) h hexact
    rw [List.cons_append, hlater, numerals, ← hlater]
    by_cases hk : t.kind = .number
    · rw [List.filter_cons_of_pos (by simpa using hk), if_pos hk]
      refine .cons ?_ hrest
      have hu : u.Placed source := by
        have hmem : u ∈ ts ++ [last] := hlater ▸ List.mem_cons_self
        rcases List.mem_append.1 hmem with hmem | hmem
        · exact (hexact u hmem).placed
        · rw [List.mem_singleton.1 hmem]
          exact hlast
      rw [← hmove, List.cons_append, hlater] at h ⊢
      exact readAs_literal h ht hk hu
    · rw [List.filter_cons_of_neg (by simpa using hk), if_neg hk]
      exact hrest

end Token

/-- **A unit attaches exactly when it touches.**  A program that is read from a text has a number literal for each
number in the text, in the same order, and no others.  A literal has a unit exactly if a name that is the symbol of
this unit starts where the number ends, with no character in between; then it reaches to the end of this name, and
otherwise it has no unit and is nothing but the number.  Every name that is not attached to a number in this way is
mentioned by a node that starts with it. -/
theorem Node.units_attach {file source : String} {program : Node} (h : parse file source = .ok program) :
    ∃ ts, (TokenStream.ofChars file source.toList).complete = .ok ts ∧
      (∀ t ∈ ts, t.text.toList <+: source.toList.drop t.offset) ∧
      List.Forall₂ (Token.ReadAs ts) (ts.filter fun t => t.kind = .number) program.numerals ∧
      ∀ u ∈ ts, u.kind = .identifier →
        (∃ t ∈ ts, t.kind = .number ∧ ∃ m, t.Attaches u m) ∨ program.Mentions u := by
  obtain ⟨ts, last, hstream, hnumerals, hnames⟩ := accounted_of_parse h
  obtain ⟨p, hcovers, hcloses⟩ := TokenStream.ofChars_covers file source.toList
  rw [hstream] at hcovers hcloses
  obtain ⟨rfl, hlast⟩ := hcloses
  have hexact : ∀ t ∈ ts, t.Exact file source.toList := fun t => hcovers.exact_of_mem
  have hprecedes : (ts ++ [last]).Pairwise Token.Precedes := by
    rw [List.pairwise_append]
    refine ⟨hcovers.precedes, List.pairwise_singleton _ _, fun t ht u hu => ?_⟩
    have hpos := (hexact t ht).length_pos
    have hend := (hexact t ht).end_le
    rw [List.mem_singleton.1 hu, Token.Precedes, hlast.offset]
    omega
  refine ⟨ts ++ [last], by rw [hstream]; rfl, ?_, ?_, ?_⟩
  · intro t ht
    rcases List.mem_append.1 ht with ht | ht
    · exact (hexact t ht).stands
    · rw [List.mem_singleton.1 ht, hlast.text]
      exact List.nil_prefix
  · have hfilter : (ts ++ [last]).filter (fun t => t.kind = .number) =
        ts.filter fun t => t.kind = .number := by
      rw [List.filter_append, List.filter_cons_of_neg (by rw [hlast.kind]; decide), List.filter_nil,
        List.append_nil]
    rw [hfilter, hnumerals]
    exact Token.forall₂_numerals [] hprecedes hexact hlast.placed
  · intro u hu hk
    have hu : u ∈ ts := by
      rcases List.mem_append.1 hu with hu | hu
      · exact hu
      · rw [List.mem_singleton.1 hu, hlast.kind] at hk
        cases hk
    refine (hnames u hu hk).imp_left ?_
    rintro ⟨t, ht, hnumber, hunit⟩
    obtain ⟨m, hm⟩ := Option.isSome_iff_exists.1 hunit
    refine ⟨t, List.mem_append_left _ ht, hnumber, m, ?_⟩
    exact ((hexact t ht).unit?_eq_some_iff hnumber (hexact u hu).placed).1 hm

/-- Two of four numbers have a unit: one is apart from the name behind it, and one touches a longer name. -/
theorem Node.units_attach_row :
    ∃ program ts, parse "<input>" "a = 3cm\n[4 m 5km2 6mm]" = .ok program ∧
      (program.numerals.map fun n =>
        match n with
        | .literal (.number _ unit) _ => unit
        | _ => none) = [some .centimetre, none, none, some .millimetre] ∧
      (TokenStream.ofChars "<input>" "a = 3cm\n[4 m 5km2 6mm]".toList).complete = .ok ts ∧
      List.Forall₂ (Token.ReadAs ts) (ts.filter fun t => t.kind = .number) program.numerals := by
  have hunits : ((parse "<input>" "a = 3cm\n[4 m 5km2 6mm]").toOption.map fun program =>
      program.numerals.map fun n =>
        match n with
        | .literal (.number _ unit) _ => unit
        | _ => none) = some [some .centimetre, none, none, some .millimetre] := by
    decide +kernel
  cases hparse : parse "<input>" "a = 3cm\n[4 m 5km2 6mm]" with
  | error e =>
    rw [hparse] at hunits
    cases hunits
  | ok program =>
    rw [hparse] at hunits
    obtain ⟨ts, hts, -, hread, -⟩ := units_attach hparse
    exact ⟨program, ts, rfl, Option.some.inj hunits, hts, hread⟩

end Reckon
