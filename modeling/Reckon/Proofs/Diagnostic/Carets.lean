import Reckon.Diagnostic.Render

/-!
# Where carets stand

Below the source line of a label, carets are drawn for the columns that the label covers.  The two rows
are put together separately.  The number of the line stands in at least four columns before the text of
the one, and other rows keep three of them free; so what stands before the text is wider than what stands
before the carets, by two columns, or more if the number needs more than four (`Label.indent`).

So the carets are drawn in one piece and as many as they should be, but two columns or more to the left of
the text that they are meant for (`Renderer.caret_columns`), and never under it.
-/

namespace Reckon

/-- How many columns stand before the text in the row that shows the source line of a label. -/
def Label.indent (l : Label) : Nat :=
  max 4 (toString l.span.startLine).length + 5

/-- The row has carets in the columns of the characters `first` to `last` of a text before which there are
`indent` columns, and in no others. -/
def Underlines (indent : Nat) (first last : Int) (row : List Char) : Prop :=
  ∀ p : Nat, row[p]? = some '^' ↔ first ≤ p + 1 - indent ∧ p + 1 - indent ≤ last

/-! ## Rows of carets -/

/-- Carets behind a text without any. -/
theorem getElem?_carets {start : List Char} (h : '^' ∉ start) (n p : Nat) :
    (start ++ List.replicate n '^')[p]? = some '^' ↔ start.length ≤ p ∧ p < start.length + n := by
  rw [List.getElem?_append]
  split
  · rename_i hp
    have hne : start[p]? ≠ some '^' := fun hmem => h (List.mem_of_getElem? hmem)
    simp only [hne, false_iff]
    omega
  · rw [List.getElem?_replicate]
    split <;> simp <;> omega

/-- Where carets stand they end under one character only. -/
theorem Underlines.last_le {indent : Nat} {first last first' last' : Int} {row : List Char}
    (h : Underlines indent first last row) (h' : Underlines indent first' last' row)
    (hpos : 1 ≤ last') (hle : first' ≤ last') : last' ≤ last := by
  have hindex : (((indent + last' - 1).toNat : Nat) : Int) = indent + last' - 1 :=
    Int.toNat_of_nonneg (by omega)
  have hcaret := (h' (indent + last' - 1).toNat).2 (by omega)
  have hcolumn := (h (indent + last' - 1).toNat).1 hcaret
  omega

theorem length_rightAligned (width : Nat) (text : String) :
    (rightAligned width text).toList.length = max width text.length := by
  unfold rightAligned repeated
  rw [String.toList_append, String.toList_ofList, List.length_append, List.length_replicate,
    String.length_toList]
  omega

namespace Diagnostic

/-- The row that shows the source line. -/
theorem sourceLine_text (l : Label) (line : String) :
    ∃ gutter, (Piece.line false (sourceLine l line)).toList = gutter ++ line.toList ∧
      gutter.length = l.indent := by
  refine ⟨[' ', ' '] ++ (rightAligned 4 (toString l.span.startLine)).toList ++ [' ', '|', ' '], ?_, ?_⟩
  · simp [Piece.line, sourceLine, Piece.text, String.join]
  · rw [List.length_append, List.length_append, length_rightAligned, Label.indent]
    simp only [List.length_cons, List.length_nil]
    omega

/-- The row of carets. -/
theorem caretLine_text (l : Label) :
    (Piece.line false (caretLine l)).toList =
      ([' ', ' ', ' ', ' ', ' ', '|', ' '] ++ List.replicate (l.span.startCol - 1).toNat ' ') ++
        List.replicate (max 1 (l.span.endCol - l.span.startCol + 1)).toNat '^' := by
  simp [Piece.line, caretLine, margin, Piece.text, String.join, repeated]

/-- The carets are as many as the label covers columns, behind seven columns instead of the indent of the
text. -/
theorem caretLine_underlines {l : Label} (hfirst : 1 ≤ l.span.startCol)
    (hle : l.span.startCol ≤ l.span.endCol) (indent : Nat) :
    Underlines indent (l.span.startCol - (indent - 7)) (l.span.endCol - (indent - 7))
      (Piece.line false (caretLine l)).toList := by
  intro p
  rw [caretLine_text, getElem?_carets (by simp)]
  simp only [List.length_append, List.length_cons, List.length_nil, List.length_replicate]
  omega

/-- Besides carets there are only blanks and the bar of the margin. -/
theorem caretLine_blank {l : Label} {p : Nat} {c : Char}
    (h : (Piece.line false (caretLine l)).toList[p]? = some c) : c = '^' ∨ c = ' ' ∨ c = '|' ∧ p = 5 := by
  rw [caretLine_text, List.getElem?_append] at h
  split at h
  · rw [List.getElem?_append] at h
    split at h
    · grind
    · exact .inr (.inl (List.eq_of_mem_replicate (List.mem_of_getElem? h)))
  · exact .inl (List.eq_of_mem_replicate (List.mem_of_getElem? h))

/-- The two rows stand one below the other. -/
theorem exists_rows {d : Diagnostic} {sources : Sources} {l : Label} {line : String}
    (hl : l ∈ d.labels) (hone : l.span.startLine = l.span.endLine)
    (hline : sources.line? l.span.file l.span.startLine = some line) :
    ∃ before after, d.lines sources = before ++ sourceLine l line :: caretLine l :: after := by
  obtain ⟨earlier, later, hlabels⟩ := List.append_of_mem hl
  have hrows : labelLines sources l = [placeLine l, margin] ++ sourceLine l line :: caretLine l ::
      (if l.message = "" then [] else [messageLine l]) := by
    unfold labelLines
    rw [hline, if_pos hone]
    rfl
  refine ⟨headLine d :: (earlier.flatMap (labelLines sources) ++ [placeLine l, margin]),
    (if l.message = "" then [] else [messageLine l]) ++ later.flatMap (labelLines sources) ++
      d.notes.map noteLine, ?_⟩
  unfold lines
  rw [hlabels, List.flatMap_append, List.flatMap_cons, hrows]
  simp only [List.append_assoc, List.cons_append, List.nil_append]

end Diagnostic

theorem Renderer.color_foldl_load (files : FileTree) (labels : List Label) (r : Renderer) :
    (labels.foldl (fun r l => r.load files l.span.file) r).color = r.color := by
  induction labels generalizing r with
  | nil => rfl
  | cons l labels ih =>
    rw [List.foldl_cons, ih]
    unfold load
    split <;> rfl

/-- **Carets stand to the left of what they are meant for.**  The row below a source line has a caret for each
column that the label covers and otherwise only blanks and the margin, but all of it is moved to the left
against the text, by the columns that the indent of the text exceeds seven; these are at least two, so the
carets are never where they should be. -/
theorem Renderer.caret_columns (r : Renderer) (files : FileTree) (d : Diagnostic) {l : Label}
    {line : String} (hcolor : r.color = false) (hl : l ∈ d.labels)
    (hone : l.span.startLine = l.span.endLine)
    (hline : (r.render files d).2.sources.line? l.span.file l.span.startLine = some line)
    (hfirst : 1 ≤ l.span.startCol) (hle : l.span.startCol ≤ l.span.endCol) :
    ∃ before after quoted carets,
      (r.render files d).1 = Text.joinLines (before ++ quoted :: carets :: after) ∧
      (∃ gutter, quoted.toList = gutter ++ line.toList ∧ gutter.length = l.indent) ∧
      (∀ p c, carets.toList[p]? = some c → c = '^' ∨ c = ' ' ∨ c = '|' ∧ p = 5) ∧
      9 ≤ l.indent ∧
      Underlines l.indent (l.span.startCol - (l.indent - 7)) (l.span.endCol - (l.indent - 7))
        carets.toList ∧
      ¬ Underlines l.indent l.span.startCol l.span.endCol carets.toList := by
  obtain ⟨before, after, hrows⟩ := Diagnostic.exists_rows hl hone hline
  have hindent : 9 ≤ l.indent := by
    unfold Label.indent
    omega
  have hcarets := Diagnostic.caretLine_underlines hfirst hle l.indent
  refine ⟨before.map (Piece.line false), after.map (Piece.line false),
    Piece.line false (Diagnostic.sourceLine l line), Piece.line false (Diagnostic.caretLine l), ?_,
    Diagnostic.sourceLine_text l line, fun p c => Diagnostic.caretLine_blank, hindent, hcarets, ?_⟩
  · unfold render Diagnostic.text
    dsimp only
    rw [color_foldl_load, hcolor]
    have hrows' : d.lines (d.labels.foldl (fun r l => r.load files l.span.file) r).sources = _ := hrows
    rw [hrows', List.map_append, List.map_cons, List.map_cons]
  · intro hunder
    have hlast := hcarets.last_le hunder (Int.le_trans hfirst hle) hle
    omega

/-- A label at the sign in the seventh column of its line; the caret stands under the fifth column. -/
theorem Renderer.caret_columns_sign :
    ∃ (r : Renderer) (d : Diagnostic) (l : Label), r.color = false ∧ l ∈ d.labels ∧
      l.span = ⟨"<t>", 1, 7, 1, 7⟩ ∧
      (r.render {} d).2.sources.line? l.span.file l.span.startLine = some "a = 1 +" ∧
      ∃ before after quoted carets,
        (r.render {} d).1 = Text.joinLines (before ++ quoted :: carets :: after) ∧
        (∃ gutter, quoted.toList = gutter ++ "a = 1 +".toList ∧ gutter.length = 9) ∧
        Underlines 9 5 5 carets.toList ∧ ¬ Underlines 9 7 7 carets.toList := by
  let r : Renderer := register { color := false } "<t>" "a = 1 +"
  let l : Label := { span := ⟨"<t>", 1, 7, 1, 7⟩ }
  let d : Diagnostic := { code := "E200", message := "expected an expression", labels := [l] }
  have hline : (r.render {} d).2.sources.line? l.span.file l.span.startLine = some "a = 1 +" := by
    decide +kernel
  have hindent : l.indent = 9 := by decide +kernel
  obtain ⟨before, after, quoted, carets, htext, hquoted, -, -, hcarets, hnot⟩ :=
    caret_columns r {} d (l := l) rfl (List.mem_singleton_self l) rfl hline (by decide) (by decide)
  rw [hindent] at hquoted hcarets hnot
  exact ⟨r, d, l, rfl, List.mem_singleton_self l, rfl, hline, before, after, quoted, carets, htext, hquoted,
    hcarets, hnot⟩

end Reckon
