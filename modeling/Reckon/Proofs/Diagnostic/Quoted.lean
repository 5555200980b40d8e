import Reckon.Diagnostic.Render
import Reckon.Proofs.Eval.Located
import Reckon.Proofs.Text.Lines

/-!
# The line that a diagnostic quotes

The diagnostic of an error with a place quotes one row of the text that is registered under the name of
that place: the row with the number of the place's line (`Renderer.render_registered`).  Rows are not
lines.  For an error of a program, the row is the line that the error is on as long as rows and lines
count alike up to there, and no character in the line ends a row (`Program.quoted_row`).  A form feed is
blank in a program and ends a row, so with one of them on an earlier line a wrong line is quoted.
-/

namespace Reckon

/-- The lines of the diagnostic of an error at this place, with this source line. -/
def Error.linesQuoting (e : Error) (s : Span) (quoted : Option String) : List (List Piece) :=
  [Diagnostic.headLine e.diagnostic, Diagnostic.placeLine ⟨s, ""⟩, Diagnostic.margin]
    ++ quoted.toList.map (Diagnostic.sourceLine ⟨s, ""⟩)
    ++ (if s.startLine = s.endLine then [Diagnostic.caretLine ⟨s, ""⟩] else [])
    ++ e.cause.notes.map Diagnostic.noteLine

/-- The text of the diagnostic of an error at this place, with this source line. -/
def Error.textQuoting (e : Error) (color : Bool) (s : Span) (quoted : Option String) : String :=
  Text.joinLines ((e.linesQuoting s quoted).map (Piece.line color))

/-- The row of a text with the number of a line, counted from one. -/
def Text.row? (source : String) (line : Int) : Option String :=
  (splitLines source)[(line - 1).toNat]?

section Render

variable {e : Error} {s : Span} {file source : String}

theorem Error.labels_diagnostic (hs : e.span = some s) : e.diagnostic.labels = [⟨s, ""⟩] := by
  rw [diagnostic, hs]
  rfl

theorem Error.lines_diagnostic (hs : e.span = some s) (sources : Sources) :
    e.diagnostic.lines sources = e.linesQuoting s (sources.line? s.file s.startLine) := by
  unfold Diagnostic.lines linesQuoting
  rw [e.labels_diagnostic hs]
  simp [Diagnostic.labelLines, diagnostic]

/-- A registered text is the one whose rows are quoted. -/
theorem Sources.line?_register (r : Renderer) (source : String) (hs : s.file = file)
    (hline : 1 ≤ s.startLine) :
    (r.register file source).sources.line? s.file s.startLine = Text.row? source s.startLine := by
  unfold Sources.line? Renderer.register Text.row?
  rw [if_pos hline, hs, Bindings.get?_set_self]
  rfl

/-- A registered text is not looked for among the files. -/
theorem Renderer.load_register (r : Renderer) (files : FileTree) (file source : String) :
    (r.register file source).load files file = r.register file source := by
  unfold Renderer.load
  have hfound : (r.register file source).sources.get? file = some (Text.splitLines source) :=
    Bindings.get?_set_self _ _ _
  rw [hfound]

theorem Error.text_register (r : Renderer) (source : String) (hs : e.span = some s)
    (hfile : s.file = file) (hline : 1 ≤ s.startLine) :
    e.diagnostic.text r.color (r.register file source).sources =
      e.textQuoting r.color s (Text.row? source s.startLine) := by
  unfold Diagnostic.text textQuoting
  rw [e.lines_diagnostic hs, Sources.line?_register r source hfile hline]

/-- The diagnostic of an error quotes the row of the registered text with the number of its line. -/
theorem Renderer.render_registered (r : Renderer) (files : FileTree) (source : String)
    (hs : e.span = some s) (hfile : s.file = file) (hline : 1 ≤ s.startLine) :
    ((r.register file source).render files e.diagnostic).1 =
      e.textQuoting r.color s (Text.row? source s.startLine) := by
  have hload : (e.diagnostic.labels.foldl (fun r l => r.load files l.span.file)
      (r.register file source)) = r.register file source := by
    rw [e.labels_diagnostic hs, List.foldl_cons, List.foldl_nil, hfile, load_register]
  unfold Renderer.render
  dsimp only
  rw [hload]
  exact e.text_register r source hs hfile hline

end Render

/-! ## Rows of programs -/

/-- A place of a text is on a line of it. -/
theorem Text.Offset.exists_line {file : String} {source : List Char} {s : Span}
    (h : Text.Offset file source s.start) :
    s.file = file ∧ 1 ≤ s.startLine ∧
      ∃ line, (lines source)[(s.startLine - 1).toNat]? = some line := by
  obtain ⟨p, hstart⟩ := h
  rw [Span.start, Prod.mk.injEq, Prod.mk.injEq] at hstart
  obtain ⟨hfile, hline, -⟩ := hstart
  obtain ⟨line, hget, -⟩ := columnAt_le source p
  have hindex : (s.startLine - 1).toNat = lineAt source p - 1 := by omega
  refine ⟨hfile, ?_, line, hindex ▸ hget⟩
  rw [hline, lineAt]
  omega

/-- What is quoted for a line, if the earlier ones are one row each. -/
theorem Text.row?_of_line {source : String} {n : Int} {line : List Char}
    (hline : (lines source.toList)[(n - 1).toNat]? = some line)
    (hearlier : ∀ l ∈ (lines source.toList).take (n - 1).toNat, OneRow l) :
    (row? source n = some (String.ofList (firstRow line)) ∨ row? source n = none ∧ line = []) ∧
      ((row? source n = some (String.ofList line) ∨ row? source n = none ∧ line = []) ↔
        EndFree line) := by
  have hmap : row? source n =
      ((splitLinesFrom [] source.toList)[(n - 1).toNat]?).map String.ofList := by
    unfold row? splitLines
    rw [List.getElem?_map]
  have hrow := row_of_line hline hearlier
  have hiff := row_eq_line_iff hline hearlier
  rw [hmap]
  generalize (splitLinesFrom [] source.toList)[(n - 1).toNat]? = row at hrow hiff
  cases row with
  | none => exact ⟨by simpa using hrow, by simpa using hiff⟩
  | some row => exact ⟨by simpa [String.ofList_inj] using hrow, by simpa [String.ofList_inj] using hiff⟩

namespace Program

variable {file source : String} {e : Error}

/-- An error of a run has a place in its text. -/
theorem offset_of_reported (h : (run file source).1 = .error (.reported e)) :
    ∃ s, e.span = some s ∧ Text.Offset file source.toList s.start := by
  obtain ⟨hok, herror⟩ := Node.parse_places file source
  rcases run_reported h with hparse | ⟨program, hparse, around, n, s, hn, hspan, he⟩
  · exact (herror e hparse).2
  · obtain ⟨t, ht, hoffset⟩ := (hok program hparse around n hn).place
    rw [hspan] at ht
    cases ht
    exact ⟨s, he, hoffset⟩

/-- **What is quoted for an error of a program.**  The error is on a line of its text, and its diagnostic,
with the text registered, quotes the row with the number of that line, or nothing if there are fewer
rows.  If every earlier line is one row, this is the line up to the first character that ends a row, and
nothing only for an empty line; so what is quoted is the line exactly if no character in it ends a
row. -/
theorem quoted_row (h : (run file source).1 = .error (.reported e)) :
    ∃ s line, e.span = some s ∧ s.file = file ∧ 1 ≤ s.startLine ∧
      (Text.lines source.toList)[(s.startLine - 1).toNat]? = some line ∧
      ∃ quoted, quoted = Text.row? source s.startLine ∧
        (∀ (r : Renderer) (files : FileTree),
          ((r.register file source).render files e.diagnostic).1 = e.textQuoting r.color s quoted) ∧
        ((∀ l ∈ (Text.lines source.toList).take (s.startLine - 1).toNat, Text.OneRow l) →
          (quoted = some (String.ofList (Text.firstRow line)) ∨ quoted = none ∧ line = []) ∧
          ((quoted = some (String.ofList line) ∨ quoted = none ∧ line = []) ↔
            Text.EndFree line)) := by
  obtain ⟨s, hs, hoffset⟩ := offset_of_reported h
  obtain ⟨hfile, hpos, line, hline⟩ := hoffset.exists_line
  refine ⟨s, line, hs, hfile, hpos, hline, _, rfl, fun r files => ?_, Text.row?_of_line hline⟩
  exact r.render_registered files source hs hfile hpos

/-- The variable is on the second line, but a form feed ends the first row, and the second row, which is
empty, is quoted. -/
theorem quoted_row_form_feed :
    ∃ e s, (run "<input>" "true\x0c\ny").1 = .error (.reported e) ∧ e.span = some s ∧
      s.startLine = 2 ∧ (Text.lines "true\x0c\ny".toList)[1]? = some ['y'] ∧
      ∀ (r : Renderer) (files : FileTree),
        ((r.register "<input>" "true\x0c\ny").render files e.diagnostic).1 =
          e.textQuoting r.color s (some "") := by
  have hrun : (reported? (run "<input>" "true\x0c\ny").1).any
      (fun e => e.span.map Span.startLine == some 2) = true := by
    decide +kernel
  have hrow : Text.row? "true\x0c\ny" 2 = some "" := by decide +kernel
  obtain ⟨e, he, hstart⟩ := (Option.any_eq_true _ _).1 hrun
  have he := reported?_eq_some_iff.1 he
  obtain ⟨s, line, hs, -, -, -, quoted, rfl, hrender, -⟩ := quoted_row he
  rw [hs] at hstart
  have hline : s.startLine = 2 := by simpa using hstart
  rw [hline, hrow] at hrender
  exact ⟨e, s, he, hs, hline, by decide +kernel, hrender⟩

end Program

end Reckon
