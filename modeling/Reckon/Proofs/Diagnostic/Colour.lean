import Mathlib.Data.List.Basic
import Reckon.Diagnostic.Render
import Reckon.Proofs.Text.Lines
import Reckon.Text.Style

/-!
# Colour is cosmetic

A diagnostic is put together from pieces before it is decided whether styles are written.  With colour each
styled piece stands between a sequence that starts its style and one that ends it.  Whatever takes these
sequences out of a text and leaves the other characters alone (`Text.Strips`) therefore turns the coloured
rows into the plain ones, as long as no piece has an ESC of its own (`Text.Plain`).

Pieces come from the diagnostic, from numbers, and from source lines.  The lines are those of registered
texts, or of files that are read when a label points into them, and splitting a text into lines brings no
new characters.  So it is enough that the diagnostic and the texts have no ESC (`Renderer.render_stripped`).
-/

namespace Reckon

namespace Text

/-! ## Taking sequences out -/

/-- The text without its colour sequences, each of which is `ESC [` and all that follows up to the first
`m`. -/
def dropSequences : List Char → List Char
  | [] => []
  | '\x1b' :: '[' :: r =>
    match _h : r.dropWhile (· != 'm') with
    | _ :: rest => dropSequences rest
    | [] => '\x1b' :: '[' :: dropSequences r
  | c :: r => c :: dropSequences r
termination_by cs => cs.length
decreasing_by
  · have hle := (List.dropWhile_suffix (l := r) (· != 'm')).length_le
    rw [_h] at hle
    simp only [List.length_cons] at hle ⊢
    omega
  · simp only [List.length_cons]
    omega
  · simp only [List.length_cons]
    omega

/-- The function takes out the sequences that set a style, and leaves every character that is no ESC where it
is. -/
structure Strips (strip : List Char → List Char) : Prop where
  nil : strip [] = []
  cons : ∀ {c : Char}, c ≠ '\x1b' → ∀ r, strip (c :: r) = c :: strip r
  sequence : ∀ {code : List Char}, (∀ c ∈ code, isStyleParameter c = true) → ∀ r,
    strip ('\x1b' :: '[' :: (code ++ 'm' :: r)) = strip r

theorem strips_dropSequences : Strips dropSequences where
  nil := by rw [dropSequences]
  cons hc r := by rw [dropSequences.eq_3 _ _ fun _ hesc _ => hc hesc]
  sequence {code} hcode r := by
    have hdrop : (code ++ 'm' :: r).dropWhile (· != 'm') = 'm' :: r := by
      have hm : ∀ c ∈ code, (c != 'm') = true := by
        intro c hc
        rw [bne_iff_ne]
        rintro rfl
        exact absurd (hcode 'm' hc) (by decide)
      rw [List.dropWhile_append_of_pos hm]
      rfl
    rw [dropSequences]
    split
    · rename_i heq
      rw [hdrop] at heq
      cases heq
      rfl
    · rename_i heq
      rw [hdrop] at heq
      cases heq

/-- What is given to a destination that is no terminal has no such sequences either. -/
theorem strips_dropStyles : Strips dropStyles where
  nil := by rw [dropStyles]
  cons hc r := by rw [dropStyles.eq_3 _ _ fun _ hesc _ => hc hesc]
  sequence {code} hcode r := by
    have hafter : afterStyle? (code ++ 'm' :: r) = some r := by
      unfold afterStyle?
      rw [List.dropWhile_append_of_pos hcode]
      rfl
    rw [dropStyles]
    split
    · rename_i heq
      rw [hafter] at heq
      cases heq
      rfl
    · rename_i heq
      rw [hafter] at heq
      cases heq

variable {strip : List Char → List Char}

theorem Strips.code (hs : Strips strip) (style : Style) (r : List Char) :
    strip (style.code.toList ++ r) = strip r := by
  have hcode : ∃ code, (∀ c ∈ code, isStyleParameter c = true) ∧
      style.code.toList = '\x1b' :: '[' :: (code ++ ['m']) := by
    cases style with
    | alert => exact ⟨['1', ';', '3', '1'], List.all_eq_true.1 rfl, rfl⟩
    | strong => exact ⟨['1'], List.all_eq_true.1 rfl, rfl⟩
    | border => exact ⟨['1', ';', '3', '4'], List.all_eq_true.1 rfl, rfl⟩
  obtain ⟨code, hparameters, hchars⟩ := hcode
  rw [hchars, List.cons_append, List.cons_append, List.append_assoc]
  exact hs.sequence hparameters r

theorem Strips.reset (hs : Strips strip) (r : List Char) : strip (Style.reset.toList ++ r) = strip r := by
  have hzero : ∀ c ∈ ['0'], isStyleParameter c = true := List.all_eq_true.1 rfl
  exact hs.sequence hzero r

/-! ## Texts without ESC -/

/-- The text has no ESC. -/
def Plain (s : String) : Prop :=
  '\x1b' ∉ s.toList

instance (s : String) : Decidable (Plain s) :=
  inferInstanceAs (Decidable ('\x1b' ∉ s.toList))

@[simp]
theorem plain_append {s t : String} : Plain (s ++ t) ↔ Plain s ∧ Plain t := by
  unfold Plain
  rw [String.toList_append, List.mem_append, not_or]

theorem plain_repeated {c : Char} (hc : c ≠ '\x1b') (n : Int) : Plain (repeated c n) := by
  unfold Plain repeated
  rw [String.toList_ofList]
  exact fun hmem => hc (List.eq_of_mem_replicate hmem).symm

theorem plain_natRepr (n : Nat) : Plain n.repr := by
  unfold Plain
  rw [Nat.repr_eq_ofList_toDigits, String.toList_ofList]
  intro hmem
  have hdigit := Nat.isDigit_of_mem_toDigits (by decide) (by decide) hmem
  exact absurd hdigit (by decide)

theorem plain_toString (n : Int) : Plain (toString n) := by
  rw [Int.toString_eq_repr, Int.repr_eq_if]
  split
  · exact plain_natRepr _
  · exact plain_append.2 ⟨by decide, plain_natRepr _⟩

/-- The characters of lines are those of the text. -/
theorem mem_of_mem_splitLinesFrom {row cs line : List Char} {c : Char}
    (hline : line ∈ splitLinesFrom row cs) (hc : c ∈ line) : c ∈ row ∨ c ∈ cs := by
  fun_induction splitLinesFrom row cs with
  | case1 row hempty => cases hline
  | case2 row hrow =>
    rw [List.mem_singleton.1 hline, List.mem_reverse] at hc
    exact .inl hc
  | case3 row rest ih =>
    rcases List.mem_cons.1 hline with rfl | hline
    · exact .inl (List.mem_reverse.1 hc)
    · have hrest := (ih hline).resolve_left List.not_mem_nil
      exact .inr (List.mem_cons_of_mem _ (List.mem_cons_of_mem _ hrest))
  | case4 row x rest hcr hend ih =>
    rcases List.mem_cons.1 hline with rfl | hline
    · exact .inl (List.mem_reverse.1 hc)
    · exact .inr (List.mem_cons_of_mem _ ((ih hline).resolve_left List.not_mem_nil))
  | case5 row x rest hcr hend ih =>
    rcases ih hline with hrow | hrest
    · rcases List.mem_cons.1 hrow with rfl | hrow
      · exact .inr List.mem_cons_self
      · exact .inl hrow
    · exact .inr (List.mem_cons_of_mem _ hrest)

theorem Plain.splitLines {s line : String} (h : Plain s) (hline : line ∈ splitLines s) : Plain line := by
  obtain ⟨chars, hchars, rfl⟩ := List.mem_map.1 hline
  unfold Plain
  rw [String.toList_ofList]
  exact fun hesc => h ((mem_of_mem_splitLinesFrom hchars hesc).resolve_left List.not_mem_nil)

end Text

open Text

variable {strip : List Char → List Char} {d : Diagnostic} {files : FileTree}

/-! ## Pieces and rows -/

theorem Text.Strips.append (hs : Strips strip) {cs : List Char} (h : '\x1b' ∉ cs) (r : List Char) :
    strip (cs ++ r) = cs ++ strip r := by
  induction cs with
  | nil => rfl
  | cons c cs ih =>
    obtain ⟨hc, hcs⟩ := not_or.1 (mt List.mem_cons.2 h)
    rw [List.cons_append, hs.cons (Ne.symm hc), ih hcs, List.cons_append]

/-- The piece has no ESC of its own. -/
def Piece.Plain (p : Piece) : Prop :=
  Text.Plain (p.text false)

namespace Text.Strips

theorem piece (hs : Strips strip) {p : Piece} (hp : p.Plain) (r : List Char) :
    strip ((p.text true).toList ++ r) = (p.text false).toList ++ strip r := by
  cases p with
  | plain s => exact hs.append hp r
  | styled style s =>
    have hplain : '\x1b' ∉ s.toList := hp
    show strip ((style.code ++ s ++ Style.reset).toList ++ r) = s.toList ++ strip r
    rw [String.toList_append, String.toList_append, List.append_assoc, List.append_assoc, hs.code,
      hs.append hplain, hs.reset]

theorem line (hs : Strips strip) {ps : List Piece} (hps : ∀ p ∈ ps, p.Plain) (r : List Char) :
    strip ((Piece.line true ps).toList ++ r) = (Piece.line false ps).toList ++ strip r := by
  unfold Piece.line
  rw [String.toList_join, String.toList_join]
  induction ps with
  | nil => rfl
  | cons p ps ih =>
    obtain ⟨hp, hps⟩ := List.forall_mem_cons.1 hps
    simp only [List.map_cons, List.flatMap_cons, List.append_assoc]
    rw [hs.piece hp, ih hps]

theorem lines (hs : Strips strip) {ls : List (List Piece)} (hls : ∀ l ∈ ls, ∀ p ∈ l, p.Plain) :
    strip (joinLines (ls.map (Piece.line true))).toList = (joinLines (ls.map (Piece.line false))).toList := by
  unfold joinLines
  rw [String.toList_intercalate, String.toList_intercalate]
  induction ls with
  | nil => exact hs.nil
  | cons l ls ih =>
    obtain ⟨hl, hls⟩ := List.forall_mem_cons.1 hls
    cases ls with
    | nil =>
      simp only [List.map_cons, List.map_nil, List.intercalate_singleton]
      rw [← List.append_nil (Piece.line true l).toList, hs.line hl, hs.nil, List.append_nil]
    | cons l' ls =>
      simp only [List.map_cons, List.intercalate_cons_cons, List.append_assoc] at ih ⊢
      rw [hs.line hl, hs.append (by decide), ih hls]

end Text.Strips

/-! ## Diagnostics -/

/-- Nothing that the diagnostic says or names has an ESC. -/
structure Diagnostic.Plain (d : Diagnostic) : Prop where
  code : Text.Plain d.code
  message : Text.Plain d.message
  labels : ∀ l ∈ d.labels, Text.Plain l.message ∧ Text.Plain l.span.file
  notes : ∀ note ∈ d.notes, Text.Plain note

/-- No source line that is known has an ESC. -/
def Sources.Plain (s : Sources) : Prop :=
  ∀ p ∈ s, ∀ line ∈ p.2, Text.Plain line

theorem Sources.Plain.line? {s : Sources} (h : s.Plain) {file line : String} {n : Int}
    (hline : s.line? file n = some line) : Text.Plain line := by
  unfold Sources.line? at hline
  split at hline
  · cases hget : s.get? file with
    | none =>
      rw [hget] at hline
      cases hline
    | some rows =>
      rw [hget] at hline
      exact h _ (Bindings.mem_of_get? hget) line (List.mem_of_getElem? hline)
  · cases hline

namespace Diagnostic

theorem plain_margin : ∀ p ∈ margin, p.Plain := by
  simp only [margin, List.forall_mem_cons, Piece.Plain, Piece.text]
  decide

theorem plain_placeLine {l : Label} (hfile : Text.Plain l.span.file) : ∀ p ∈ placeLine l, p.Plain := by
  have hplace : Text.Plain (" " ++ l.span.position) := by
    unfold Span.position
    simp only [plain_append, plain_toString, hfile]
    decide
  simp only [placeLine, List.forall_mem_cons, Piece.Plain, Piece.text]
  exact ⟨by decide, by decide, hplace, List.forall_mem_nil _⟩

theorem plain_sourceLine (l : Label) {line : String} (hline : Text.Plain line) :
    ∀ p ∈ sourceLine l line, p.Plain := by
  have hnumber : Text.Plain (rightAligned 4 (toString l.span.startLine) ++ " |") := by
    unfold rightAligned
    exact plain_append.2 ⟨plain_append.2 ⟨plain_repeated (by decide) _, plain_toString _⟩, by decide⟩
  simp only [sourceLine, List.forall_mem_cons, Piece.Plain, Piece.text]
  exact ⟨by decide, hnumber, plain_append.2 ⟨by decide, hline⟩, List.forall_mem_nil _⟩

theorem plain_caretLine (l : Label) : ∀ p ∈ caretLine l, p.Plain := by
  refine List.forall_mem_append.2 ⟨plain_margin, ?_⟩
  simp only [List.forall_mem_cons, Piece.Plain, Piece.text]
  exact ⟨plain_append.2 ⟨by decide, plain_repeated (by decide) _⟩, plain_repeated (by decide) _,
    List.forall_mem_nil _⟩

theorem plain_messageLine {l : Label} (hmessage : Text.Plain l.message) :
    ∀ p ∈ messageLine l, p.Plain := by
  refine List.forall_mem_append.2 ⟨plain_margin, ?_⟩
  simp only [List.forall_mem_cons, Piece.Plain, Piece.text]
  exact ⟨by decide, hmessage, List.forall_mem_nil _⟩

theorem plain_labelLines {sources : Sources} (hsources : sources.Plain) {l : Label}
    (hmessage : Text.Plain l.message) (hfile : Text.Plain l.span.file) :
    ∀ line ∈ labelLines sources l, ∀ p ∈ line, p.Plain := by
  intro line hline
  simp only [labelLines, List.mem_append, List.mem_cons, List.not_mem_nil, or_false] at hline
  rcases hline with (((rfl | rfl) | hline) | hline) | hline
  · exact plain_placeLine hfile
  · exact plain_margin
  · obtain ⟨text, htext, rfl⟩ := List.mem_map.1 hline
    exact plain_sourceLine l (hsources.line? (Option.mem_toList.1 htext))
  · split at hline
    · rw [List.mem_singleton.1 hline]
      exact plain_caretLine l
    · cases hline
  · split at hline
    · cases hline
    · rw [List.mem_singleton.1 hline]
      exact plain_messageLine hmessage

theorem Plain.headLine (h : d.Plain) : ∀ p ∈ headLine d, p.Plain := by
  have hseverity : Text.Plain (severity ++ "[" ++ d.code ++ "]") := by
    simp only [plain_append, h.code]
    decide
  simp only [Diagnostic.headLine, List.forall_mem_cons, Piece.Plain, Piece.text]
  exact ⟨hseverity, plain_append.2 ⟨by decide, h.message⟩, List.forall_mem_nil _⟩

theorem plain_noteLine {note : String} (hnote : Text.Plain note) : ∀ p ∈ noteLine note, p.Plain := by
  simp only [noteLine, List.forall_mem_cons, Piece.Plain, Piece.text]
  exact ⟨by decide, by decide, plain_append.2 ⟨by decide, hnote⟩, List.forall_mem_nil _⟩

/-- No row has an ESC, if neither the diagnostic nor a source line has one. -/
theorem Plain.lines (h : d.Plain) {sources : Sources} (hsources : sources.Plain) :
    ∀ line ∈ d.lines sources, ∀ p ∈ line, p.Plain := by
  intro line hline
  rcases List.mem_cons.1 hline with rfl | hline
  · exact h.headLine
  rcases List.mem_append.1 hline with hline | hline
  · obtain ⟨l, hl, hline⟩ := List.mem_flatMap.1 hline
    obtain ⟨hmessage, hfile⟩ := h.labels l hl
    exact plain_labelLines hsources hmessage hfile line hline
  · obtain ⟨note, hnote, rfl⟩ := List.mem_map.1 hline
    exact plain_noteLine (h.notes note hnote)

end Diagnostic

/-! ## Renderers -/

namespace Renderer

/-- A renderer that knows these texts, registered one after another. -/
def knowing (color : Bool) (texts : List (String × String)) : Renderer :=
  texts.foldl (fun r t => r.register t.1 t.2) { color }

variable {r : Renderer}

theorem sources_register {file source : String} (hr : r.sources.Plain) (hsource : Text.Plain source) :
    (r.register file source).sources.Plain := by
  intro p hp line hline
  rcases Bindings.mem_set hp with rfl | hp
  · exact hsource.splitLines hline
  · exact hr p hp line hline

theorem get?_foldl_register (texts : List (String × String)) {file : String}
    (h : (texts.foldl (fun r t => r.register t.1 t.2) r).sources.get? file = none) :
    r.sources.get? file = none ∧ file ∉ texts.map Prod.fst := by
  induction texts generalizing r with
  | nil => exact ⟨h, List.not_mem_nil⟩
  | cons t texts ih =>
    obtain ⟨hnone, hnot⟩ := ih h
    unfold register at hnone
    rw [Bindings.get?_set] at hnone
    split at hnone
    · cases hnone
    · rename_i hne
      refine ⟨hnone, ?_⟩
      rw [List.map_cons, List.mem_cons, not_or]
      exact ⟨hne, hnot⟩

theorem sources_knowing (color : Bool) {texts : List (String × String)}
    (htexts : ∀ t ∈ texts, Text.Plain t.2) : (knowing color texts).sources.Plain := by
  have hfold : ∀ (r : Renderer), r.sources.Plain →
      (texts.foldl (fun r t => r.register t.1 t.2) r).sources.Plain := by
    induction texts with
    | nil => exact fun r hr => hr
    | cons t texts ih =>
      obtain ⟨ht, htexts⟩ := List.forall_mem_cons.1 htexts
      exact fun r hr => ih htexts _ (sources_register hr ht)
  exact hfold _ fun p hp => absurd hp List.not_mem_nil

/-- Files that are read for the labels bring no ESC, if those that are not known yet have none. -/
theorem sources_foldl_load {labels : List Label} (hr : r.sources.Plain)
    (hfiles : ∀ l ∈ labels, r.sources.get? l.span.file = none →
      ∀ text, files.readTidy? l.span.file = some text → Text.Plain text) :
    (labels.foldl (fun r l => r.load files l.span.file) r).sources.Plain := by
  induction labels generalizing r with
  | nil => exact hr
  | cons l labels ih =>
    obtain ⟨hl, hlabels⟩ := List.forall_mem_cons.1 hfiles
    rw [List.foldl_cons]
    cases hget : r.sources.get? l.span.file with
    | some rows =>
      have hload : r.load files l.span.file = r := by
        unfold load
        rw [hget]
      rw [hload]
      exact ih hr hlabels
    | none =>
      have hload : r.load files l.span.file =
          r.register l.span.file ((files.readTidy? l.span.file).getD "") := by
        unfold load
        rw [hget]
      have htext : Text.Plain ((files.readTidy? l.span.file).getD "") := by
        cases hread : files.readTidy? l.span.file with
        | none => exact List.not_mem_nil
        | some text => exact hl hget text hread
      rw [hload]
      refine ih (sources_register hr htext) fun l' hl' hnone => hlabels l' hl' ?_
      unfold register at hnone
      rw [Bindings.get?_set] at hnone
      split at hnone
      · cases hnone
      · exact hnone

/-- What a renderer knows does not depend on whether it writes styles. -/
theorem knowing_color (color : Bool) (texts : List (String × String)) :
    knowing color texts = { knowing false texts with color } := by
  have hfold : ∀ (r : Renderer), texts.foldl (fun r t => r.register t.1 t.2) { r with color } =
      { texts.foldl (fun r t => r.register t.1 t.2) r with color } := by
    induction texts with
    | nil => exact fun r => rfl
    | cons t texts ih => exact fun r => ih (r.register t.1 t.2)
  exact hfold { color := false }

theorem foldl_load_color (color : Bool) (labels : List Label) (r : Renderer) :
    labels.foldl (fun r l => r.load files l.span.file) { r with color } =
      { labels.foldl (fun r l => r.load files l.span.file) r with color } := by
  induction labels generalizing r with
  | nil => rfl
  | cons l labels ih =>
    have hload : load files { r with color } l.span.file = { r.load files l.span.file with color } := by
      unfold load
      cases r.sources.get? l.span.file <;> rfl
    rw [List.foldl_cons, hload, ih, List.foldl_cons]

theorem render_knowing (color : Bool) (texts : List (String × String)) (d : Diagnostic) :
    ((knowing color texts).render files d).1 = d.text color
      (d.labels.foldl (fun r l => r.load files l.span.file) (knowing false texts)).sources := by
  rw [knowing_color]
  unfold render
  rw [foldl_load_color]

/-- **Colour is cosmetic.**  If neither the diagnostic nor a text that it may quote has an ESC, the rendering
with colour has the same characters as the one without, apart from the colour sequences; whether a sequence
is taken to be all from `ESC [` to the next `m`, or only what is well formed, makes no difference. -/
theorem render_stripped (files : FileTree) (texts : List (String × String)) (hd : d.Plain)
    (htexts : ∀ t ∈ texts, Text.Plain t.2)
    (hfiles : ∀ l ∈ d.labels, l.span.file ∉ texts.map Prod.fst →
      ∀ text, files.readTidy? l.span.file = some text → Text.Plain text) :
    let coloured := ((knowing true texts).render files d).1.toList
    let plain := ((knowing false texts).render files d).1.toList
    dropSequences coloured = plain ∧ dropStyles coloured = plain := by
  have hsources : (d.labels.foldl (fun r l => r.load files l.span.file)
      (knowing false texts)).sources.Plain := by
    refine sources_foldl_load (sources_knowing false htexts) fun l hl hnone => ?_
    exact hfiles l hl (get?_foldl_register texts hnone).2
  have hlines := hd.lines hsources
  dsimp only
  rw [render_knowing true, render_knowing false]
  exact ⟨strips_dropSequences.lines hlines, strips_dropStyles.lines hlines⟩

/-- Two labels and a note, with brackets in the texts, and one of the lines looked for in a file. -/
theorem render_stripped_labels :
    let d : Diagnostic :=
      { code := "E401", message := "[1m] is not defined", notes := ["declare m first"],
        labels := [⟨⟨"<t>", 2, 3, 2, 4⟩, "used here"⟩, ⟨⟨"rates", 1, 1, 2, 1⟩, ""⟩] }
    let files : FileTree := { files := [(["rates"], "k = [2m]\nk")] }
    let rendering := fun color => ((knowing color [("<t>", "x\n y[0m]")]).render files d).1.toList
    d.Plain ∧ dropSequences (rendering true) = rendering false ∧
      dropStyles (rendering true) = rendering false := by
  intro d files rendering
  have hd : d.Plain := ⟨by decide, by decide, by decide, by decide⟩
  have hfiles : ∀ name text, files.readTidy? name = some text → Text.Plain text := by
    intro name text htext
    obtain ⟨path, -, hfile⟩ := Option.bind_eq_some_iff.1 htext
    obtain ⟨f, hf, rfl⟩ := Option.map_eq_some_iff.1 hfile
    rw [List.mem_singleton.1 (List.mem_of_find?_eq_some hf)]
    decide
  refine ⟨hd, ?_⟩
  exact render_stripped files [("<t>", "x\n y[0m]")] hd (by decide) fun l _ _ => hfiles l.span.file

end Renderer

end Reckon
