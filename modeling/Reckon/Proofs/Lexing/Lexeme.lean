import Mathlib.Data.List.Find
import Mathlib.Data.List.TakeWhile
import Reckon.Proofs.Lexing.Next
import Reckon.Proofs.Printing.Phrase

/-!
# Lexemes that are read as themselves

A sign, a word or a numeral at the front of a text is the token that is read there, unless the text
goes on with a character that makes it a longer one.  Which characters do so depends on the lexeme
(`scan?_sign`, `scan?_word`, `scan?_numeral`); none of those in `Breaks` ever does.
-/

namespace Reckon.Token

/-- No sign goes on with the first character. -/
def Gentle (rest : List Char) : Prop :=
  ∀ c ∈ rest.head?, c ∉ ['=', '&', '|', '>']

/-- No lexeme goes on with the first character. -/
def Breaks (rest : List Char) : Prop :=
  ∀ c ∈ rest.head?, Text.isNamePart c = false ∧ c ≠ '.' ∧ c ∉ ['=', '&', '|', '>']

theorem Breaks.gentle {rest : List Char} (h : Breaks rest) : Gentle rest :=
  fun c hc => (h c hc).2.2

theorem signs_tail : ∀ s ∈ Kind.signs, ∀ c ∈ s.1.tail, c ∈ ['=', '&', '|', '>'] := by
  have hall : ∀ s ∈ Kind.signs, s.1.tail.all (['=', '&', '|', '>'].contains ·) = true := by decide
  intro s hs c hc
  exact List.contains_iff_mem.1 (List.all_eq_true.1 (hall s hs) c hc)

theorem signs_head : ∀ s ∈ Kind.signs, ∀ c ∈ s.1.head?,
    c.isDigit = false ∧ Text.isNameStart c = false := by
  have hall : ∀ s ∈ Kind.signs,
      s.1.head?.all (fun c => !c.isDigit && !Text.isNameStart c) = true := by decide
  intro s hs c hc
  have h := hall s hs
  rw [Option.mem_def.1 hc] at h
  simpa using h

/-- A sign is read as itself before anything that it does not go on with. -/
theorem scan?_sign {s : List Char × Kind} (hs : s ∈ Kind.signs) {rest : List Char}
    (hr : Gentle rest) : scan? (s.1 ++ rest) = some s := by
  obtain ⟨earlier, later, hsplit⟩ := List.append_of_mem hs
  have hfirst : ∀ t ∈ earlier, ¬ t.1.isPrefixOf (s.1 ++ rest) = true := by
    intro t ht hpre
    have hts : t ∈ Kind.signs := hsplit ▸ List.mem_append_left _ ht
    have hnot : ¬ t.1.isPrefixOf s.1 = true := by
      have hpw := Kind.signs_longest_first
      rw [hsplit] at hpw
      exact (List.pairwise_append.1 hpw).2.2 t ht s List.mem_cons_self
    rw [List.isPrefixOf_iff_prefix] at hpre hnot
    rcases List.prefix_or_prefix_of_prefix hpre (List.prefix_append s.1 rest) with h | ⟨u, hu⟩
    · exact hnot h
    · -- The longer sign goes on with a character that `rest` does not start with.
      rw [← hu, List.prefix_append_right_inj] at hpre
      obtain ⟨v, rfl⟩ := hpre
      cases u with
      | nil => exact hnot ⟨[], by rw [← hu, List.append_nil, List.append_nil]⟩
      | cons c u =>
        refine hr c (by simp) (signs_tail t hts c ?_)
        have hne := signs_ne_nil s hs
        rw [← hu, List.tail_append_of_ne_nil hne]
        simp
  have hat : signAt? (s.1 ++ rest) = some s := by
    refine List.find?_eq_some_iff_append.2
      ⟨List.isPrefixOf_iff_prefix.2 (List.prefix_append _ _), earlier, later, hsplit, ?_⟩
    intro t ht
    rw [Bool.not_eq_true']
    exact Bool.eq_false_iff.2 (hfirst t ht)
  cases hl : s.1 with
  | nil => exact absurd hl (signs_ne_nil s hs)
  | cons c r =>
    obtain ⟨hd, hn⟩ := signs_head s hs c (by rw [hl]; rfl)
    rw [hl] at hat
    simp only [scan?, List.cons_append, hd, hn]
    exact hat

theorem takeWhile_append_stop {p : Char → Bool} {rest : List Char}
    (hr : ∀ c ∈ rest.head?, p c = false) (cs : List Char) :
    (cs ++ rest).takeWhile p = cs.takeWhile p ∧ (cs ++ rest).dropWhile p = cs.dropWhile p ++ rest := by
  induction cs with
  | nil =>
    cases rest with
    | nil => exact ⟨rfl, rfl⟩
    | cons c r => simp [hr c rfl]
  | cons c cs ih =>
    cases hc : p c with
    | true => simpa [hc] using ih
    | false => simp [hc]

theorem takeWhile_append_of_stop {p : Char → Bool} {cs rest : List Char}
    (hcs : ∀ c ∈ cs, p c = true) (hr : ∀ c ∈ rest.head?, p c = false) :
    (cs ++ rest).takeWhile p = cs ∧ (cs ++ rest).dropWhile p = rest := by
  obtain ⟨htake, hdrop⟩ := takeWhile_append_stop hr cs
  rw [htake, hdrop, List.takeWhile_eq_self_iff.2 hcs, List.dropWhile_eq_nil_iff.2 hcs, List.nil_append]
  exact ⟨rfl, rfl⟩

theorem toNat_of_isDigit {c : Char} (h : c.isDigit = true) : c.toNat ≤ 57 :=
  (Char.isDigit_iff_toNat.1 h).2

theorem toNat_of_isAlpha {c : Char} (h : c.isAlpha = true) : 65 ≤ c.toNat := by
  rcases Bool.or_eq_true_iff.1 h with hupper | hlower
  · exact UInt32.le_iff_toNat_le.1 (of_decide_eq_true hupper).1
  · have hge : 97 ≤ c.toNat :=
      UInt32.le_iff_toNat_le.1 (of_decide_eq_true (Bool.and_eq_true_iff.1 hlower).1)
    omega

theorem isNamePart_of_isDigit {c : Char} (h : c.isDigit = true) : Text.isNamePart c = true := by
  have hle := toNat_of_isDigit h
  rw [Text.isNamePart, Text.isNumeric_ascii (by omega), h]
  simp

/-- A digit does not start a name. -/
theorem isNameStart_of_isDigit {c : Char} (h : c.isDigit = true) : Text.isNameStart c = false := by
  have hle := toNat_of_isDigit h
  have hc : c ≠ '_' := by
    rintro rfl
    exact absurd hle (by decide)
  have halpha : c.isAlpha = false := by
    cases ha : c.isAlpha with
    | false => rfl
    | true =>
      have hge := toNat_of_isAlpha ha
      omega
  rw [Text.isNameStart, Text.isLetter_ascii (by omega), halpha]
  simp [hc]

/-- A word is read as itself before anything that is no part of a name. -/
theorem scan?_word {c : Char} {r rest : List Char} (hc : Text.isNameStart c = true)
    (hr : ∀ x ∈ r, Text.isNamePart x = true) (hrest : ∀ x ∈ rest.head?, Text.isNamePart x = false) :
    scan? (c :: r ++ rest) = some (c :: r, wordKind (c :: r)) := by
  have hd : c.isDigit = false := by
    cases h : c.isDigit with
    | false => rfl
    | true => rw [isNameStart_of_isDigit h] at hc; cases hc
  have hall : ∀ x ∈ c :: r, Text.isNamePart x = true := by
    intro x hx
    rcases List.mem_cons.1 hx with rfl | hx
    · exact Text.isNamePart_of_isNameStart hc
    · exact hr x hx
  have hw : word (c :: r ++ rest) = c :: r := (takeWhile_append_of_stop hall hrest).1
  rw [List.cons_append] at hw ⊢
  simp only [scan?, hd, hc, hw, if_true, Bool.false_eq_true, if_false]

/-- A numeral is read as itself before anything but a digit or a point. -/
theorem scan?_numeral (n : Numeral) {rest : List Char}
    (hrest : ∀ c ∈ rest.head?, c.isDigit = false ∧ c ≠ '.') :
    scan? (n.chars ++ rest) = some (n.chars, .number) := by
  have hdig : ∀ c ∈ rest.head?, c.isDigit = false := fun c hc => (hrest c hc).1
  have hnum : numeral (n.chars ++ rest) = n.chars := by
    unfold numeral Numeral.chars
    cases hf : n.fraction with
    | none =>
      obtain ⟨ht, hdr⟩ := takeWhile_append_of_stop n.whole_digits hdig
      simp only [List.append_nil, ht, hdr]
      split
      · exact absurd rfl (hrest '.' rfl).2
      · rw [List.append_nil]
    | some ds =>
      have hds : ∀ c ∈ ds, c.isDigit = true := n.fraction_digits ds hf
      have hpoint : ∀ c ∈ ('.' :: (ds ++ rest)).head?, c.isDigit = false := by
        intro c hc
        cases hc
        rfl
      obtain ⟨ht, hdr⟩ := takeWhile_append_of_stop n.whole_digits hpoint
      simp only [List.append_assoc, List.cons_append, ht, hdr,
        (takeWhile_append_of_stop hds hdig).1]
  cases hw : n.whole with
  | nil => exact absurd hw n.whole_ne_nil
  | cons c w =>
    have hc : c.isDigit = true := n.whole_digits c (by rw [hw]; exact List.mem_cons_self)
    obtain ⟨others, hch⟩ : ∃ others, n.chars ++ rest = c :: others := by
      unfold Numeral.chars
      rw [hw]
      exact ⟨_, rfl⟩
    rw [hch] at hnum ⊢
    simp only [scan?, hc, if_true, hnum]

/-! ## Lexemes end where a break follows -/

section Breaking

variable {rest : List Char}

theorem Breaks.isDigit (hr : Breaks rest) : ∀ c ∈ rest.head?, c.isDigit = false := by
  intro c hc
  cases hd : c.isDigit with
  | false => rfl
  | true =>
    have hpart := (hr c hc).1
    rw [isNamePart_of_isDigit hd] at hpart
    cases hpart

theorem numeral_append_breaks (hr : Breaks rest) (cs : List Char) :
    numeral (cs ++ rest) = numeral cs := by
  obtain ⟨htake, hdrop⟩ := takeWhile_append_stop hr.isDigit cs
  unfold numeral
  rw [htake, hdrop]
  cases hd : cs.dropWhile Char.isDigit with
  | nil =>
    cases rest with
    | nil => rfl
    | cons c r =>
      rw [List.nil_append]
      split
      · rename_i heq
        exact absurd (List.cons.inj heq).1 (hr c rfl).2.1
      · rfl
  | cons c r =>
    by_cases hc : c = '.'
    · subst hc
      have hfraction := (takeWhile_append_stop hr.isDigit r).1
      simp only [List.cons_append, hfraction]
    · rw [List.cons_append]
      split
      · rename_i heq
        exact absurd (List.cons.inj heq).1 hc
      · split
        · rename_i heq
          exact absurd (List.cons.inj heq).1 hc
        · rfl

theorem word_append_breaks (hr : Breaks rest) (cs : List Char) : word (cs ++ rest) = word cs :=
  (takeWhile_append_stop (fun c hc => (hr c hc).1) cs).1

theorem signAt?_append_gentle (hr : Gentle rest) {cs : List Char} (hcs : cs ≠ []) :
    signAt? (cs ++ rest) = signAt? cs := by
  refine List.find?_congr fun s hs => ?_
  rw [Bool.eq_iff_iff, List.isPrefixOf_iff_prefix, List.isPrefixOf_iff_prefix]
  refine ⟨fun h => ?_, fun h => h.trans (List.prefix_append cs rest)⟩
  rcases List.prefix_or_prefix_of_prefix h (List.prefix_append cs rest) with hp | ⟨u, hu⟩
  · exact hp
  · -- A sign that went on into the rest would go on with its first character.
    rw [← hu, List.prefix_append_right_inj] at h
    obtain ⟨v, rfl⟩ := h
    cases u with
    | nil => exact ⟨[], by rw [List.append_nil, ← hu, List.append_nil]⟩
    | cons c u =>
      have hmem : c ∈ s.1.tail := by
        rw [← hu, List.tail_append_of_ne_nil hcs]
        simp
      exact absurd (signs_tail s hs c hmem) (hr c rfl)

/-- What a text starts with does not depend on what follows a break. -/
theorem scan?_append_breaks (hr : Breaks rest) {cs : List Char} (hcs : cs ≠ []) :
    scan? (cs ++ rest) = scan? cs := by
  have hsign := signAt?_append_gentle hr.gentle hcs
  have hnumeral := numeral_append_breaks hr cs
  have hword := word_append_breaks hr cs
  cases cs with
  | nil => exact absurd rfl hcs
  | cons c r =>
    rw [List.cons_append] at *
    simp only [scan?, hsign, hnumeral, hword]

end Breaking

/-- No lexeme starts with a skipped character. -/
theorem isSkipped_of_scan? {c : Char} {r : List Char} {s : List Char × Kind}
    (h : scan? (c :: r) = some s) : isSkipped c = false := by
  cases hk : isSkipped c with
  | false => rfl
  | true =>
    simp only [isSkipped, Bool.or_eq_true, beq_iff_eq] at hk
    rcases hk with (((rfl | rfl) | rfl) | rfl) | rfl <;> cases h

/-- The end of input is not read off the text. -/
theorem scan?_kind_ne_eof {cs lexeme : List Char} {k : Kind} (h : scan? cs = some (lexeme, k)) :
    k ≠ .eof := by
  unfold scan? at h
  split at h
  · cases h
  · split at h
    · cases h
      simp
    · split at h
      · cases h
        unfold wordKind
        split <;> simp
      · have hsigns : ∀ s ∈ Kind.signs, s.2 ≠ .eof := by decide
        exact hsigns _ (List.mem_of_find?_eq_some h)

/-- A numeral has no newline. -/
theorem newline_notMem_of_scan?_number {cs lexeme : List Char}
    (h : scan? cs = some (lexeme, .number)) : '\n' ∉ lexeme := by
  unfold scan? at h
  split at h
  · cases h
  · split at h
    · cases h
      unfold numeral
      rw [List.mem_append, not_or]
      refine ⟨fun hm => absurd (List.mem_takeWhile_imp hm) (by decide), ?_⟩
      split
      · rw [List.mem_cons, not_or]
        exact ⟨by decide, fun hm => absurd (List.mem_takeWhile_imp hm) (by decide)⟩
      · exact List.not_mem_nil
    · split at h
      · have hw : ∀ w, wordKind w ≠ .number := by
          intro w
          unfold wordKind
          split <;> simp
        rw [Option.some.injEq, Prod.mk.injEq] at h
        exact absurd h.2 (hw _)
      · have hsigns : ∀ s ∈ Kind.signs, s.2 ≠ .number := by decide
        exact absurd rfl (hsigns _ (List.mem_of_find?_eq_some h))

end Reckon.Token

namespace Reckon.Cursor

variable {file : String} {c : Cursor} {x : Char} {r : List Char}

/-- Nothing is skipped before a character that means something. -/
theorem skipBlanks_of_head (h : c.after = x :: r) (hx : Token.isSkipped x = false) :
    c.skipBlanks = c := by
  unfold skipBlanks
  rw [h, List.takeWhile_cons_of_neg (by rw [hx]; exact Bool.false_ne_true)]
  rfl

/-- A lexeme that is read where it stands is the next token, and the cursor is then behind it. -/
theorem next_lexeme {cs rest : List Char} {k : Token.Kind} (hc : c.after = cs ++ rest)
    (hs : Token.scan? (cs ++ rest) = some (cs, k)) :
    c.next file = (.ok (token file k cs c (c.advance cs.length)), c.advance cs.length) := by
  have hskip : c.skipBlanks = c := by
    cases hcs : cs ++ rest with
    | nil => rw [hcs] at hs; cases hs
    | cons x r =>
      rw [hcs] at hs
      exact skipBlanks_of_head (hc.trans hcs) (Token.isSkipped_of_scan? hs)
  have hs' : Token.scan? c.skipBlanks.after = some (cs, k) := by rw [hskip, hc, hs]
  have hn := next_of_scan file hs'
  rwa [hskip] at hn

end Reckon.Cursor
