import Reckon.Proofs.Lexing.Respaced

/-!
# Lexemes set apart

A lexeme is read as itself wherever a blank follows it, since no numeral, word or sign goes on with one
(`Token.Lexeme.scan?_of_breaks`).  So a text can be written out anew from its tokens: their lexemes in order,
with blanks between them (`Token.spaced`).  What is read from it are the same tokens at other places, whatever
the blanks are, and whether or not the lexemes touched before.
-/

namespace Reckon

namespace Token

variable {l rest lead gap : List Char} {k : Kind} {ts : List Token} {gaps : List (List Char)}

/-- The lexemes of the tokens, with these blanks behind each of them. -/
def spaced : List Token → List (List Char) → List Char
  | t :: ts, gap :: gaps => t.text.toList ++ (gap ++ spaced ts gaps)
  | _, _ => []

/-- Nothing but skipped characters. -/
def Blank (cs : List Char) : Prop :=
  ∀ c ∈ cs, isSkipped c = true

/-- A lexeme is read as itself before a break. -/
theorem Lexeme.scan?_of_breaks (h : Lexeme l k) (hr : Breaks rest) :
    Token.scan? (l ++ rest) = some (l, k) := by
  cases h with
  | numeral n => exact scan?_numeral n fun c hc => ⟨hr.isDigit c hc, (hr c hc).2.1⟩
  | word starts goesOn => exact scan?_word starts goesOn fun c hc => (hr c hc).1
  | sign listed => exact scan?_sign listed hr.gentle

/-- What stands behind a lexeme is a break: blanks, or the end of the text. -/
theorem breaks_spaced (hgap : Blank gap) (hne : ts ≠ [] → gap ≠ []) :
    Breaks (gap ++ spaced ts gaps) := by
  cases gap with
  | cons c gap => exact Text.breaks_of_isSkipped (hgap c List.mem_cons_self) _
  | nil =>
    cases ts with
    | nil => exact Text.breaks_of_blank hgap
    | cons t ts => exact absurd rfl (hne (List.cons_ne_nil t ts))

/-- The segments of a text that is written out from tokens. -/
theorem exists_segments_spaced (hts : ∀ t ∈ ts, Lexeme t.text.toList t.kind) (hlead : Blank lead)
    (hlen : gaps.length = ts.length) (hblank : ∀ gap ∈ gaps, Blank gap)
    (hne : ∀ gap ∈ gaps.dropLast, gap ≠ []) :
    ∃ ps tail, lead ++ spaced ts gaps = Segment.text ps tail ∧ Segment.Legible tail ps ∧ Blank tail ∧
      ps.map (fun p => (p.kind, String.ofList p.lexeme)) = ts.map fun t => (t.kind, t.text) := by
  induction ts generalizing lead gaps with
  | nil => exact ⟨[], lead, List.append_nil lead, .nil, hlead, rfl⟩
  | cons t ts ih =>
    obtain ⟨gap, gaps, rfl⟩ := List.exists_cons_of_length_eq_add_one hlen
    have hlen : gaps.length = ts.length := Nat.succ.inj hlen
    obtain ⟨hgap, hblank⟩ := List.forall_mem_cons.1 hblank
    obtain ⟨ht, hts⟩ := List.forall_mem_cons.1 hts
    -- Only behind the last lexeme may the blanks be missing.
    have hbetween : ts ≠ [] → gap ≠ [] ∧ ∀ gap ∈ gaps.dropLast, gap ≠ [] := by
      intro hmore
      have hgaps : gaps ≠ [] := by
        rw [← List.length_pos_iff, hlen]
        exact List.length_pos_iff.2 hmore
      rw [List.dropLast_cons_of_ne_nil hgaps] at hne
      exact List.forall_mem_cons.1 hne
    have hlater : ∀ gap ∈ gaps.dropLast, gap ≠ [] := by
      by_cases hmore : ts = []
      · rw [hmore] at hlen
        rw [List.eq_nil_of_length_eq_zero hlen]
        exact fun _ hmem => absurd hmem List.not_mem_nil
      · exact (hbetween hmore).2
    obtain ⟨ps, tail, htext, hps, htail, hmap⟩ := ih hts hgap hlen hblank hlater
    refine ⟨⟨lead, t.kind, t.text.toList⟩ :: ps, tail, ?_, .cons hlead ?_ hps, htail, ?_⟩
    · rw [Segment.text, ← htext]
      rfl
    · rw [← htext]
      exact ht.scan?_of_breaks (breaks_spaced hgap fun hmore => (hbetween hmore).1)
    · rw [List.map_cons, List.map_cons, hmap, String.ofList_toList]

end Token

/-- The tokens that segments are read as have their kinds and their lexemes. -/
theorem Segment.ReadAs.map_eq {rest : List Char} {ps : List Segment} {ts : List Token}
    (h : ReadAs rest ps ts) :
    ts.map (fun t => (t.kind, t.text)) = ps.map fun p => (p.kind, String.ofList p.lexeme) := by
  induction h with
  | nil => rfl
  | cons hkind hlexeme _ _ _ _ ih => rw [List.map_cons, List.map_cons, hkind, hlexeme, ih]

namespace TokenStream

open Token

/-- **Lexemes that are set apart are read again.**  If a text can be read, then so can its lexemes with any
blanks between them, before the first and behind the last, where only those between two lexemes have to be
there; and the tokens are of the same kinds, with the same lexemes and values, in the same order. -/
theorem complete_spaced (file file' : String) (source : List Char) (ts : List Token)
    (lead : List Char) (gaps : List (List Char)) (hts : (ofChars file source).complete = .ok ts)
    (hlen : gaps.length = ts.dropLast.length) (hlead : Blank lead) (hblank : ∀ gap ∈ gaps, Blank gap)
    (hne : ∀ gap ∈ gaps.dropLast, gap ≠ []) :
    ∃ us, (ofChars file' (lead ++ spaced ts.dropLast gaps)).complete = .ok us ∧
      us.map (fun t => (t.kind, t.text)) = ts.map (fun t => (t.kind, t.text)) ∧
      us.map Token.value = ts.map Token.value := by
  obtain ⟨p, hcovers, hcloses⟩ := ofChars_covers file source
  unfold complete at hts
  cases hend : (ofChars file source).ending with
  | error e =>
    rw [hend] at hts
    cases hts
  | ok last =>
    rw [hend] at hts hcloses
    obtain rfl : (ofChars file source).tokens ++ [last] = ts := Except.ok.inj hts
    obtain ⟨-, hlast⟩ := hcloses
    rw [List.dropLast_concat] at hlen ⊢
    have hlexemes : ∀ t ∈ (ofChars file source).tokens, Lexeme t.text.toList t.kind :=
      fun t ht => (hcovers.exact_of_mem ht).lexeme
    obtain ⟨ps, tail, htext, hps, htail, hmap⟩ :=
      exists_segments_spaced hlexemes hlead hlen hblank hne
    obtain ⟨us, last', hus, -, hread⟩ := ofChars_segments file' hps htail
    obtain ⟨p', -, hcloses'⟩ := ofChars_covers file' (Segment.text ps tail)
    rw [hus] at hcloses'
    obtain ⟨-, hlast'⟩ := hcloses'
    have hsame : (us ++ [last']).map (fun t => (t.kind, t.text)) =
        ((ofChars file source).tokens ++ [last]).map fun t => (t.kind, t.text) := by
      rw [List.map_append, List.map_append, hread.map_eq, hmap, List.map_singleton, List.map_singleton,
        hlast.kind, hlast.text, hlast'.kind, hlast'.text]
    refine ⟨us ++ [last'], ?_, hsame, ?_⟩
    · rw [htext, hus]
      rfl
    · -- The value of a numeral is read off its lexeme.
      have hvalue := congrArg (List.map fun s : Kind × String => numeralValue s.2.toList) hsame
      rwa [List.map_map, List.map_map] at hvalue

/-- Lexemes that touch each other, and the same ones set apart. -/
theorem complete_spaced_touching :
    ∃ ts, (ofChars "<input>" ['x', '<', '=', '=', '1', '.', 'y']).complete = .ok ts ∧
      [' '] ++ spaced ts.dropLast [['\t'], ['\r', ' '], [' '], ['\x0c'], []] =
        [' ', 'x', '\t', '<', '=', '\r', ' ', '=', ' ', '1', '.', '\x0c', 'y'] ∧
      ∃ us, (ofChars "<input>"
          [' ', 'x', '\t', '<', '=', '\r', ' ', '=', ' ', '1', '.', '\x0c', 'y']).complete = .ok us ∧
        us.map (fun t => (t.kind, t.text)) = [(.identifier, "x"), (.lessEqual, "<="), (.assign, "="),
          (.number, "1."), (.identifier, "y"), (.eof, "")] := by
  have hgaps : ∀ gap ∈ [['\t'], ['\r', ' '], [' '], ['\x0c'], []], gap.all Token.isSkipped = true := by
    decide
  refine ⟨_, rfl, by decide, ?_⟩
  obtain ⟨us, hus, hmap, -⟩ := complete_spaced "<input>" "<input>"
    ['x', '<', '=', '=', '1', '.', 'y'] _ [' '] [['\t'], ['\r', ' '], [' '], ['\x0c'], []] rfl
    (by decide) (List.forall_mem_singleton.2 rfl) (fun gap hgap => List.all_eq_true.1 (hgaps gap hgap))
    (by decide)
  exact ⟨us, hus, hmap.trans (by decide)⟩

end TokenStream

end Reckon
