import Reckon.Proofs.Lexing.Segments

/-!
# The same text with other blanks

Replacing each run of blanks in a text by another one that is not empty (`Text.Respaced`) leaves its
lexemes as they are, since no lexeme has a blank in it and every blank ends one.  So the segments of the two
texts correspond (`Text.Respaced.segments`).  What the characters of a run are is looked at in one place only:
next to a sign, where it matters in a matrix row whether a space or a tab stands there.  Runs that agree
in this keep the sign as it is (`Text.KeepsSigns`).
-/

namespace Reckon

/-! ## Texts -/

namespace Text

open Token (isSkipped Breaks)

/-- The second text is the first one with each run of blanks replaced by another one.  The first argument
says which replacements are allowed between a character and the next one, the second one which character
stands before the texts. -/
inductive Respaced (allowed : Option Char → List Char → List Char → Option Char → Prop) :
    Option Char → List Char → List Char → Prop where
  | nil {p : Option Char} : Respaced allowed p [] []
  | char {p : Option Char} {c : Char} {cs cs' : List Char} (meant : isSkipped c = false)
      (tail : Respaced allowed (some c) cs cs') : Respaced allowed p (c :: cs) (c :: cs')
  | run {p : Option Char} {r r' cs cs' : List Char} (ne_nil : r ≠ []) (ne_nil' : r' ≠ [])
      (skipped : ∀ c ∈ r, isSkipped c = true) (skipped' : ∀ c ∈ r', isSkipped c = true)
      (stops : ∀ c ∈ cs.head?, isSkipped c = false) (replaces : allowed p r r' cs.head?)
      (tail : Respaced allowed none cs cs') : Respaced allowed p (r ++ cs) (r' ++ cs')

/-- The characters that are signs. -/
def signs : List (Option Char) :=
  [some '+', some '-']

/-- Next to a sign stands a space or a tab in both runs or in none. -/
structure KeepsSigns (p : Option Char) (r r' : List Char) (next : Option Char) : Prop where
  behind : p ∈ signs → Cursor.isGap (r'.headD '\x00') = Cursor.isGap (r.headD '\x00')
  before : next ∈ signs → Cursor.isGap (r'.getLastD '\x00') = Cursor.isGap (r.getLastD '\x00')

variable {allowed : Option Char → List Char → List Char → Option Char → Prop} {p : Option Char}
  {cs cs' : List Char}

/-- A skipped character ends what stands before it. -/
theorem breaks_of_isSkipped {c : Char} (h : isSkipped c = true) (cs : List Char) : Breaks (c :: cs) := by
  have hblank : c = ' ' ∨ c = '\t' ∨ c = '\r' ∨ c = '\x0c' ∨ c = '\x0b' := by
    simpa [isSkipped, or_assoc] using h
  rintro x ⟨⟩
  rcases hblank with rfl | rfl | rfl | rfl | rfl <;> decide

/-- Blanks before a break are a break. -/
theorem breaks_append {cs rest : List Char} (h : ∀ c ∈ cs, isSkipped c = true) (hr : Breaks rest) :
    Breaks (cs ++ rest) := by
  cases cs with
  | nil => exact hr
  | cons c cs => exact breaks_of_isSkipped (h c List.mem_cons_self) (cs ++ rest)

theorem breaks_of_blank {cs : List Char} (h : ∀ c ∈ cs, isSkipped c = true) : Breaks cs := by
  have hbreaks : Breaks (cs ++ []) := breaks_append h fun _ hc => by cases hc
  rwa [List.append_nil] at hbreaks

namespace Respaced

/-- A run of given characters. -/
theorem of_all (r r' : List Char) (hne : r ≠ [] ∧ r' ≠ [])
    (hskipped : r.all isSkipped = true ∧ r'.all isSkipped = true)
    (hstops : cs.head?.all (fun c => !isSkipped c) = true) (hallows : allowed p r r' cs.head?)
    (h : Respaced allowed none cs cs') : Respaced allowed p (r ++ cs) (r' ++ cs') := by
  refine .run hne.1 hne.2 (List.all_eq_true.1 hskipped.1) (List.all_eq_true.1 hskipped.2)
    (fun c hc => ?_) hallows h
  rw [Option.mem_def.1 hc] at hstops
  simpa using hstops

theorem head? (h : Respaced allowed p cs cs') (hstops : ∀ c ∈ cs.head?, isSkipped c = false) :
    cs'.head? = cs.head? := by
  cases h with
  | nil => rfl
  | char => rfl
  | @run _ r _ _ _ hr _ hskipped =>
    obtain ⟨c, r, rfl⟩ := List.exists_cons_of_ne_nil hr
    have hc := hskipped c List.mem_cons_self
    rw [hstops c rfl] at hc
    cases hc

theorem eq_nil (h : Respaced allowed p [] cs') : cs' = [] := by
  generalize htext : [] = text at h
  cases h with
  | nil => rfl
  | char => cases htext
  | run hr => exact absurd (List.append_eq_nil_iff.1 htext.symm).1 hr

/-- What replaces a run is replaced by it. -/
theorem symm {allowed' : Option Char → List Char → List Char → Option Char → Prop}
    (hallowed : ∀ {p r r' next}, allowed p r r' next → allowed' p r' r next)
    (h : Respaced allowed p cs cs') : Respaced allowed' p cs' cs := by
  induction h with
  | nil => exact .nil
  | char hc _ ih => exact .char hc ih
  | run hr hr' hskipped hskipped' hstops hallows htail ih =>
    have hhead := htail.head? hstops
    refine .run hr' hr hskipped' hskipped (fun c hc => hstops c (hhead ▸ hc)) ?_ ih
    rw [hhead]
    exact hallowed hallows

/-- The blanks in front, and what follows them. -/
theorem blanks {b : List Char} (h : Respaced allowed p (b ++ cs) cs')
    (hb : ∀ c ∈ b, isSkipped c = true) (hstops : ∀ c ∈ cs.head?, isSkipped c = false) :
    ∃ b' ds p', cs' = b' ++ ds ∧ (∀ c ∈ b', isSkipped c = true) ∧ (b' = [] ↔ b = []) ∧
      (b ≠ [] → allowed p b b' cs.head?) ∧ Respaced allowed p' cs ds := by
  by_cases hnil : b = []
  · subst hnil
    exact ⟨[], cs', p, rfl, hb, Iff.rfl, fun hne => absurd rfl hne, h⟩
  · obtain ⟨c, b₀, hcb⟩ := List.exists_cons_of_ne_nil hnil
    generalize htext : b ++ cs = text at h
    cases h with
    | nil => simp [hcb] at htext
    | char hc =>
      rw [hcb, List.cons_append] at htext
      obtain ⟨rfl, -⟩ := List.cons.inj htext
      rw [hb c (by rw [hcb]; exact List.mem_cons_self)] at hc
      cases hc
    | @run _ r r' ds ds' hr hr' hskipped hskipped' hstops' hallows htail =>
      -- Both are the blanks that the text starts with.
      obtain ⟨htake, hdrop⟩ := Token.takeWhile_append_of_stop hb hstops
      obtain ⟨htake', hdrop'⟩ := Token.takeWhile_append_of_stop hskipped hstops'
      rw [htext] at htake hdrop
      obtain rfl : b = r := htake.symm.trans htake'
      obtain rfl : cs = ds := hdrop.symm.trans hdrop'
      exact ⟨r', ds', none, rfl, hskipped', by simp [hr, hr'], fun _ => hallows, htail⟩

/-- A lexeme in front stays as it is. -/
theorem lexeme {l : List Char} (h : Respaced allowed p (l ++ cs) cs') (hne : l ≠ [])
    (hl : ∀ c ∈ l, isSkipped c = false) :
    ∃ ds, cs' = l ++ ds ∧ Respaced allowed l.getLast? cs ds := by
  induction l generalizing p cs' with
  | nil => exact absurd rfl hne
  | cons c l ih =>
    obtain ⟨hc, hl⟩ := List.forall_mem_cons.1 hl
    rw [List.cons_append] at h
    generalize htext : c :: (l ++ cs) = text at h
    cases h with
    | nil => cases htext
    | char _ htail =>
      cases htext
      cases l with
      | nil => exact ⟨_, rfl, htail⟩
      | cons x l =>
        obtain ⟨ds, rfl, hds⟩ := ih htail (List.cons_ne_nil x l) hl
        exact ⟨ds, rfl, by simpa using hds⟩
    | @run _ r _ _ _ hr _ hskipped =>
      obtain ⟨x, r, rfl⟩ := List.exists_cons_of_ne_nil hr
      obtain ⟨rfl, -⟩ := List.cons.inj htext
      rw [hskipped c List.mem_cons_self] at hc
      cases hc

/-- The texts are the same up to the first run of blanks. -/
theorem exists_breaks (h : Respaced allowed p cs cs') :
    ∃ w rest rest', cs = w ++ rest ∧ cs' = w ++ rest' ∧ Breaks rest ∧ Breaks rest' := by
  induction h with
  | nil => exact ⟨[], [], [], rfl, rfl, (fun _ hc => by cases hc), fun _ hc => by cases hc⟩
  | @char _ c _ _ _ _ ih =>
    obtain ⟨w, rest, rest', rfl, rfl, hbreaks, hbreaks'⟩ := ih
    exact ⟨c :: w, rest, rest', rfl, rfl, hbreaks, hbreaks'⟩
  | run hr hr' hskipped hskipped' =>
    obtain ⟨c, r, rfl⟩ := List.exists_cons_of_ne_nil hr
    obtain ⟨c', r', rfl⟩ := List.exists_cons_of_ne_nil hr'
    exact ⟨[], _, _, rfl, rfl, breaks_of_isSkipped (hskipped c List.mem_cons_self) _,
      breaks_of_isSkipped (hskipped' c' List.mem_cons_self) _⟩

/-- So a lexeme is read before the one text if it is read before the other. -/
theorem scan? (h : Respaced allowed p cs cs') {l : List Char} (hl : l ≠ []) :
    Token.scan? (l ++ cs') = Token.scan? (l ++ cs) := by
  obtain ⟨w, rest, rest', rfl, rfl, hbreaks, hbreaks'⟩ := h.exists_breaks
  have hne : l ++ w ≠ [] := List.append_ne_nil_of_left_ne_nil hl w
  rw [← List.append_assoc, ← List.append_assoc, Token.scan?_append_breaks hbreaks hne,
    Token.scan?_append_breaks hbreaks' hne]

/-- Behind a sign stands a space or a tab in both texts or in none. -/
theorem isGap_head (h : Respaced KeepsSigns p cs cs') (hp : p ∈ signs) :
    Cursor.isGap (cs'.headD '\x00') = Cursor.isGap (cs.headD '\x00') := by
  cases h with
  | nil => rfl
  | char => rfl
  | run hr hr' _ _ _ hkeeps =>
    obtain ⟨c, r, rfl⟩ := List.exists_cons_of_ne_nil hr
    obtain ⟨c', r', rfl⟩ := List.exists_cons_of_ne_nil hr'
    exact hkeeps.behind hp

end Respaced

end Text

/-! ## Segments -/

namespace Segment

/-- A sign in this segment, before the given text, joins its neighbours. -/
def joins (p : Segment) (rest : List Char) : Bool :=
  Cursor.isGap (rest.headD '\x00') || !Cursor.isGap (p.blanks.getLastD '\x00')

/-- The same lexemes with other blanks, before two texts: signs join their neighbours alike, and there are
blanks before the same lexemes. -/
inductive Respaced (rest rest' : List Char) : List Segment → List Segment → Prop where
  | nil : Respaced rest rest' [] []
  | cons {p p' : Segment} {ps ps' : List Segment} (kind : p'.kind = p.kind) (lexeme : p'.lexeme = p.lexeme)
      (blanks : p'.blanks = [] ↔ p.blanks = [])
      (joins : p.kind = .plus ∨ p.kind = .minus → p'.joins (text ps' rest') = p.joins (text ps rest))
      (tail : Respaced rest rest' ps ps') : Respaced rest rest' (p :: ps) (p' :: ps')

end Segment

/-- **Other blanks, the same lexemes.**  A text that is read without an error is still so with other blanks,
and its segments correspond. -/
theorem Text.Respaced.segments {p : Option Char} {ps : List Segment} {tail cs' : List Char}
    (h : Respaced KeepsSigns p (Segment.text ps tail) cs') (hps : Segment.Legible tail ps)
    (htail : ∀ c ∈ tail, Token.isSkipped c = true) :
    ∃ ps' tail', cs' = Segment.text ps' tail' ∧ Segment.Legible tail' ps' ∧
      (∀ c ∈ tail', Token.isSkipped c = true) ∧ Segment.Respaced tail tail' ps ps' := by
  induction hps generalizing p cs' with
  | nil =>
    have hblanks : Respaced KeepsSigns p (tail ++ []) cs' := by rw [List.append_nil]; exact h
    obtain ⟨b', ds, p', rfl, hb', -, -, hds⟩ := hblanks.blanks htail fun _ hc => by cases hc
    rw [hds.eq_nil, List.append_nil]
    exact ⟨[], b', rfl, .nil, hb', .nil⟩
  | @cons segment ps hblanks hscan _ ih =>
    have hlexeme := Token.lexeme_of_scan? hscan
    have hnot : ∀ c ∈ segment.lexeme, Token.isSkipped c = false := fun _ => hlexeme.isSkipped_of_mem
    have hstops : ∀ c ∈ (segment.lexeme ++ Segment.text ps tail).head?, Token.isSkipped c = false := by
      intro c hc
      obtain ⟨x, l, hl⟩ := List.exists_cons_of_ne_nil hlexeme.ne_nil
      rw [hl] at hc hnot
      cases hc
      exact hnot _ List.mem_cons_self
    obtain ⟨b', ds, p', rfl, hb', hnil, hkeeps, hds⟩ := h.blanks hblanks hstops
    obtain ⟨es, rfl, hes⟩ := hds.lexeme hlexeme.ne_nil hnot
    obtain ⟨ps', tail', rfl, hps', htail', hrespaced⟩ := ih hes
    refine ⟨⟨b', segment.kind, segment.lexeme⟩ :: ps', tail', rfl, .cons hb' ?_ hps', htail',
      .cons rfl rfl hnil (fun hsign => ?_) hrespaced⟩
    · exact (hes.scan? hlexeme.ne_nil).trans hscan
    · have hchar : segment.lexeme.getLast? ∈ signs ∧ segment.lexeme.head? ∈ signs := by
        have hall : ∀ s ∈ Token.Kind.signs, s.2 = .plus ∨ s.2 = .minus →
            s.1.getLast? ∈ signs ∧ s.1.head? ∈ signs := by decide
        refine hall _ (hlexeme.mem_signs ?_) hsign
        rcases hsign with hk | hk <;> rw [hk] <;> decide
      have hbefore : Cursor.isGap (b'.getLastD '\x00') = Cursor.isGap (segment.blanks.getLastD '\x00') := by
        by_cases hempty : segment.blanks = []
        · rw [hempty, hnil.2 hempty]
        · refine (hkeeps hempty).before ?_
          obtain ⟨x, l, hl⟩ := List.exists_cons_of_ne_nil hlexeme.ne_nil
          rw [hl] at hchar ⊢
          exact hchar.2
      unfold Segment.joins
      rw [hbefore, hes.isGap_head hchar.1]

end Reckon
