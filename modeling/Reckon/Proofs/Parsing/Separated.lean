import Reckon.Proofs.Parsing.Element

/-!
# Matrices with commas and with blanks

The elements of a matrix row stand behind one another with a comma or only a blank between them.  In both
cases the row is read as these elements, and the matrix as its rows (`Element.read_row`,
`Element.read_grid`), so that the two literals are the same matrix up to spans
(`Node.parse_separated`).  With blanks only, neighbours have to stay apart (`Token.Apart`): a name before a
parenthesis is a call, and a sign behind the body of a definition goes on with it
(`Node.parse_run_together`).
-/

namespace Reckon

open Ahead (before)

/-- What stands between two elements of a row, besides a blank. -/
inductive Separator where
  | comma
  | blank
deriving DecidableEq

namespace Separator

/-- How it is written, with the blank. -/
def text : Separator → String
  | comma => ", "
  | blank => " "

/-- Its segment, if it has one. -/
def segments : Separator → List Segment
  | comma => [⟨[], .comma, [',']⟩]
  | blank => []

end Separator

namespace Element

/-- The characters of an element. -/
def text (x : Element) : List Char :=
  Segment.text x.segments []

/-- The segments of a row, with these blanks before it. -/
def row (sep : Separator) (blanks : List Char) : List Element → List Segment
  | [] => []
  | x :: xs =>
    Segment.spread blanks x.segments ++
      xs.flatMap fun y => sep.segments ++ Segment.spread [' '] y.segments

/-- The segments of the rows, with these blanks before them. -/
def grid (sep : Separator) (blanks : List Char) : List (List Element) → List Segment
  | [] => []
  | xs :: rows => row sep blanks xs ++ rows.flatMap fun ys => ⟨[], .semicolon, [';']⟩ :: row sep [' '] ys

/-- The segments of a matrix. -/
def literal (sep : Separator) (rows : List (List Element)) : List Segment :=
  ⟨[], .lbracket, ['[']⟩ :: (grid sep [] rows ++ [⟨[], .rbracket, [']']⟩])

variable {sep : Separator} {blanks rest : List Char} {x y : Element} {xs : List Element}
  {rows : List (List Element)}

theorem row_cons_cons (sep : Separator) (blanks : List Char) (x y : Element) (xs : List Element) :
    row sep blanks (x :: y :: xs) =
      Segment.spread blanks x.segments ++ (sep.segments ++ row sep [' '] (y :: xs)) := by
  rw [row, row, List.flatMap_cons, List.append_assoc]

theorem grid_cons_cons (sep : Separator) (blanks : List Char) (xs ys : List Element)
    (rows : List (List Element)) :
    grid sep blanks (xs :: ys :: rows) =
      row sep blanks xs ++ (⟨[], .semicolon, [';']⟩ :: grid sep [' '] (ys :: rows)) := by
  rw [grid, grid, List.flatMap_cons, List.cons_append]

/-! ## The text of a matrix -/

theorem text_spread (blanks : List Char) (x : Element) (rest : List Char) :
    Segment.text (Segment.spread blanks x.segments) rest = blanks ++ (x.text ++ rest) := by
  obtain ⟨p, ps, t, ts, hsegments, -⟩ := x.exists_first
  have hclose : p.blanks = [] := x.close p (by rw [hsegments]; exact List.mem_cons_self)
  rw [text, ← Segment.text_eq_append, hsegments, Segment.spread, Segment.text, Segment.text, hclose,
    List.nil_append]

theorem text_row (hxs : xs ≠ []) (blanks rest : List Char) :
    Segment.text (row sep blanks xs) rest =
      blanks ++ (sep.text.toList.intercalate (xs.map text) ++ rest) := by
  have hsep : ∀ rest, Segment.text sep.segments (' ' :: rest) = sep.text.toList ++ rest := by
    intro rest
    cases sep <;> rfl
  induction xs generalizing blanks with
  | nil => exact absurd rfl hxs
  | cons x xs ih =>
    cases xs with
    | nil => simp [row, text_spread]
    | cons y xs =>
      rw [row_cons_cons, Segment.text_append, text_spread, Segment.text_append, ih (List.cons_ne_nil y xs),
        List.singleton_append, hsep]
      simp only [List.map_cons, List.intercalate_cons_cons, List.append_assoc]

theorem text_grid (hrows : rows ≠ []) (hne : ∀ xs ∈ rows, xs ≠ []) (blanks rest : List Char) :
    Segment.text (grid sep blanks rows) rest =
      blanks ++ ([';', ' '].intercalate (rows.map fun xs => sep.text.toList.intercalate (xs.map text)) ++
        rest) := by
  induction rows generalizing blanks with
  | nil => exact absurd rfl hrows
  | cons xs rows ih =>
    obtain ⟨hxs, hne⟩ := List.forall_mem_cons.1 hne
    cases rows with
    | nil => simp [grid, text_row hxs]
    | cons ys rows =>
      rw [grid_cons_cons, Segment.text_append, text_row hxs, Segment.text, ih (List.cons_ne_nil ys rows) hne]
      simp only [List.map_cons, List.intercalate_cons_cons, List.append_assoc, List.nil_append,
        List.cons_append]

/-! ## Its segments are read where they stand -/

theorem legible_row (hblanks : ∀ c ∈ blanks, Token.isSkipped c = true) (hrest : Token.Breaks rest) :
    Segment.Legible rest (row sep blanks xs) := by
  cases xs with
  | nil => exact .nil
  | cons x xs =>
    induction xs generalizing x blanks with
    | nil =>
      rw [row, List.flatMap_nil, List.append_nil]
      exact x.legible.spread hblanks hrest
    | cons y xs ih =>
      have hrow : Segment.Legible rest (row sep [' '] (y :: xs)) := ih (List.forall_mem_singleton.2 rfl) y
      have htext : ∃ cs, Segment.text (row sep [' '] (y :: xs)) rest = ' ' :: cs :=
        ⟨_, text_row (List.cons_ne_nil y xs) _ _⟩
      obtain ⟨cs, hcs⟩ := htext
      rw [row_cons_cons]
      cases sep with
      | comma =>
        have hcomma : Segment.Legible (' ' :: cs) Separator.comma.segments :=
          .cons (by simp) rfl .nil
        refine (x.legible.spread hblanks ?_).append ((hcs ▸ hcomma).append hrow)
        rw [Segment.text_append, hcs]
        rintro c ⟨⟩
        decide
      | blank =>
        refine (x.legible.spread hblanks ?_).append hrow
        exact hcs ▸ Text.breaks_of_isSkipped rfl cs

theorem legible_grid (hne : ∀ xs ∈ rows, xs ≠ []) (hblanks : ∀ c ∈ blanks, Token.isSkipped c = true)
    (hrest : Token.Breaks rest) : Segment.Legible rest (grid sep blanks rows) := by
  induction rows generalizing blanks with
  | nil => exact .nil
  | cons xs rows ih =>
    obtain ⟨hxs, hne⟩ := List.forall_mem_cons.1 hne
    cases rows with
    | nil =>
      rw [grid, List.flatMap_nil, List.append_nil]
      exact legible_row hblanks hrest
    | cons ys rows =>
      rw [grid_cons_cons]
      refine (legible_row hblanks ?_).append (.cons (by simp) rfl ?_)
      · rintro c ⟨⟩
        decide
      · exact ih hne (List.forall_mem_singleton.2 rfl)

theorem legible_literal (hne : ∀ xs ∈ rows, xs ≠ []) : Segment.Legible [] (literal sep rows) := by
  refine .cons (by simp) rfl ((legible_grid hne (by simp) ?_).append (.cons (by simp) rfl .nil))
  rintro c ⟨⟩
  decide

/-! ## Rows -/

section Reading

open Reckon.Parser

variable {z : Segment} {zs : List Segment} {us : List Token} {last : Token} {n k : Nat}

theorem length_pos (x : Element) : 0 < x.segments.length := by
  obtain ⟨p, ps, t, ts, hsegments, -⟩ := x.exists_first
  rw [hsegments]
  exact Nat.succ_pos _

theorem size_tokens (x : Element) : (before x.tokens x.last).size = x.segments.length + 1 := by
  have hpos := x.length_pos
  rw [Ahead.size_before, x.reads.length_eq]
  omega

/-- A row starts with the first segment of its first element. -/
theorem row_cons (sep : Separator) (blanks : List Char) (x : Element) (xs : List Element) :
    ∃ p ps more, row sep blanks (x :: xs) = { p with blanks := blanks } :: (ps ++ more) ∧
      x.segments = p :: ps ∧ p.kind ∈ starting := by
  obtain ⟨p, ps, t, ts, hsegments, -, -, hstart, -⟩ := x.exists_first
  exact ⟨p, ps, _, by rw [row, hsegments, Segment.spread, List.cons_append], hsegments, hstart⟩

/-- An element that is not the last one of its row is read, and the comma behind it if there is one. -/
theorem read_next (hapart : sep = .blank → Token.Apart x.tokens y.tokens)
    (hread : Segment.ReadAs rest
      (Segment.spread blanks x.segments ++ (sep.segments ++ (row sep [' '] (y :: xs) ++ zs))) us)
    (hlast : last.kind = .eof) (hn : 2 * x.segments.length + 3 ≤ n) :
    ∃ node b comma vs, expr n .matters (before us last) = .ok (node, b) ∧ node.bare = x.node.bare ∧
      ¬ (b.current.kind = .semicolon ∨ b.current.kind = .rbracket) ∧
      accept .comma b = .ok (comma, before vs last) ∧
      Segment.ReadAs rest (row sep [' '] (y :: xs) ++ zs) vs := by
  have hsize := x.size_tokens
  cases sep with
  | comma =>
    obtain ⟨node, v, vs, hnode, hbare, hvs⟩ :=
      x.read (n := n) (x.stopsBefore_mark (by decide) _) hread hlast (by omega)
    cases hvs with
    | cons hv _ _ _ _ hvs =>
      have hk : v.kind = .comma := hv
      refine ⟨node, _, true, vs, hnode, hbare, ?_,
        accept_run_ok hk (Ahead.advance_before (by rw [hk]; decide)), hvs⟩
      rw [Ahead.current_before, hk]
      decide
  | blank =>
    obtain ⟨p, ps, more, hrow, hy, hstart⟩ := row_cons .blank [' '] y xs
    have hstops := stopsBefore_element (hapart rfl) hy (Segment.text (more ++ zs) rest)
    have hnext : row .blank [' '] (y :: xs) ++ zs =
        { p with blanks := [' '] } :: (ps ++ (more ++ zs)) := by
      rw [hrow, List.cons_append, List.append_assoc]
    rw [← Segment.text_append] at hstops
    rw [Separator.segments, List.nil_append, hnext] at hread
    obtain ⟨node, v, vs, hnode, hbare, hvs⟩ := x.read (n := n) hstops hread hlast (by omega)
    have hv : v.kind ∈ starting := by
      cases hvs with
      | cons hv _ _ _ _ _ => exact hv ▸ hstart
    have hall : ∀ k ∈ starting, k ≠ .semicolon ∧ k ≠ .rbracket ∧ k ≠ .comma := by decide
    obtain ⟨hsemicolon, hbracket, hcomma⟩ := hall _ hv
    exact ⟨node, _, false, v :: vs, hnode, hbare, fun h => h.elim hsemicolon hbracket,
      accept_run_no hcomma, hnext ▸ hvs⟩

/-- A row is read as its elements. -/
theorem read_row (hapart : sep = .blank → (x :: xs).IsChain fun x y => Token.Apart x.tokens y.tokens)
    (hz : z.kind = .semicolon ∨ z.kind = .rbracket)
    (hread : Segment.ReadAs rest (row sep blanks (x :: xs) ++ z :: zs) us) (hlast : last.kind = .eof)
    (hn : 2 * (row sep blanks (x :: xs)).length + 3 ≤ n) (hk : (row sep blanks (x :: xs)).length < k) :
    ∃ nodes v vs, matrixRow (expr n .matters) k (before us last) = .ok (nodes, before (v :: vs) last) ∧
      nodes.map Node.bare = ((x :: xs).map fun x => x.node.bare) ∧
      Segment.ReadAs rest (z :: zs) (v :: vs) := by
  have hempty : ∀ {x : Element} {node : Node}, node.bare = x.node.bare → node.isEmpty = false :=
    fun {x _} hbare => (Node.isEmpty_eq_of_bare hbare).trans x.not_empty
  induction xs generalizing x blanks us k with
  | nil =>
    have hmark : z.kind ∈ [.comma, .semicolon, .rbracket] := by
      rcases hz with hz | hz <;> rw [hz] <;> decide
    rw [row, List.flatMap_nil, List.append_nil] at hread hn hk
    rw [Segment.length_spread] at hn hk
    obtain ⟨k, rfl⟩ : ∃ m, k = m + 1 := ⟨k - 1, by omega⟩
    have hsize := x.size_tokens
    obtain ⟨node, v, vs, hnode, hbare, hvs⟩ :=
      x.read (n := n) (x.stopsBefore_mark hmark _) hread hlast (by omega)
    have hv : v.kind = z.kind := by
      cases hvs
      assumption
    refine ⟨[node], v, vs, matrixRow_run_last hnode (hempty hbare) (hv ▸ hz) k, ?_, hvs⟩
    rw [List.map_singleton, hbare, List.map_singleton]
  | cons y xs ih =>
    have hpos := x.length_pos
    rw [row_cons_cons, List.length_append, List.length_append, Segment.length_spread] at hn hk
    rw [row_cons_cons, List.append_assoc, List.append_assoc] at hread
    obtain ⟨k, rfl⟩ : ∃ m, k = m + 1 := ⟨k - 1, by omega⟩
    obtain ⟨node, b, comma, vs, hnode, hbare, hb, hcomma, hvs⟩ := read_next (n := n)
      (fun hblank => (List.isChain_cons_cons.1 (hapart hblank)).1) hread hlast (by omega)
    obtain ⟨nodes, w, ws, hnodes, hbares, hws⟩ := ih (k := k)
      (fun hblank => (List.isChain_cons_cons.1 (hapart hblank)).2) hvs (by omega) (by omega)
    refine ⟨node :: nodes, w, ws, matrixRow_run_more hnode (hempty hbare) hb hcomma hnodes, ?_, hws⟩
    rw [List.map_cons, hbare, hbares]
    rfl

/-- With as many rounds as there are tokens, a row is read up to what ends it. -/
theorem read_whole_row (hxs : xs ≠ [])
    (hapart : sep = .blank → xs.IsChain fun x y => Token.Apart x.tokens y.tokens)
    (hz : z.kind = .semicolon ∨ z.kind = .rbracket)
    (hread : Segment.ReadAs rest (row sep blanks xs ++ z :: zs) us) (hlast : last.kind = .eof)
    (hn : 2 * (row sep blanks xs).length + 3 ≤ n) :
    (before us last).current.kind ≠ .rbracket ∧ ∃ nodes v vs,
      bounded (matrixRow (expr n .matters)) (before us last) = .ok (nodes, before (v :: vs) last) ∧
      nodes.map Node.bare = (xs.map fun x => x.node.bare) ∧ v.kind = z.kind ∧
      Segment.ReadAs rest zs vs := by
  obtain ⟨x, xs, rfl⟩ := List.exists_cons_of_ne_nil hxs
  constructor
  · obtain ⟨p, ps, more, hrow, -, hstart⟩ := row_cons sep blanks x xs
    rw [hrow, List.cons_append] at hread
    cases hread with
    | cons hkind _ _ _ _ _ =>
      have hall : ∀ k ∈ starting, k ≠ .rbracket := by decide
      exact hkind ▸ hall _ hstart
  · have hlength : (row sep blanks (x :: xs)).length < (before us last).size := by
      refine Nat.lt_of_le_of_lt ?_ (Ahead.length_lt_size us last)
      rw [hread.length_eq, List.length_append]
      exact Nat.le_add_right _ _
    obtain ⟨nodes, v, vs, hrun, hbares, hvs⟩ := read_row hapart hz hread hlast hn hlength
    cases hvs with
    | cons hv _ _ _ _ hvs => exact ⟨nodes, v, vs, hrun, hbares, hv, hvs⟩

/-! ## Matrices -/

/-- The rows are read, up to the closing bracket. -/
theorem read_grid (hne : ∀ xs ∈ rows, xs ≠ [])
    (hapart : sep = .blank → ∀ xs ∈ rows, xs.IsChain fun x y => Token.Apart x.tokens y.tokens)
    (hz : z.kind = .rbracket) (hread : Segment.ReadAs rest (grid sep blanks rows ++ z :: zs) us)
    (hlast : last.kind = .eof) (hn : 2 * (grid sep blanks rows).length + 3 ≤ n)
    (hk : (grid sep blanks rows).length < k) :
    ∃ nodes v vs, matrixRows (expr n .matters) k (before us last) = .ok (nodes, before (v :: vs) last) ∧
      nodes.map (List.map Node.bare) = (rows.map fun xs => xs.map fun x => x.node.bare) ∧
      v.kind = .rbracket ∧ Segment.ReadAs rest zs vs := by
  induction rows generalizing blanks us k with
  | nil =>
    obtain ⟨k, rfl⟩ : ∃ m, k = m + 1 := ⟨k - 1, by omega⟩
    cases hread with
    | @cons _ _ v vs hv _ _ _ _ hvs =>
      exact ⟨[], v, vs, matrixRows_run_end (hv.trans hz) k, rfl, hv.trans hz, hvs⟩
  | cons xs rows ih =>
    obtain ⟨hxs, hne⟩ := List.forall_mem_cons.1 hne
    have hrow : sep = .blank → xs.IsChain fun x y => Token.Apart x.tokens y.tokens :=
      fun hblank => hapart hblank xs List.mem_cons_self
    obtain ⟨k, rfl⟩ : ∃ m, k = m + 1 := ⟨k - 1, by omega⟩
    cases rows with
    | nil =>
      rw [grid, List.flatMap_nil, List.append_nil] at hread hn hk
      obtain ⟨hfirst, nodes, v, vs, hrun, hbares, hv, hvs⟩ :=
        read_whole_row hxs hrow (.inr hz) hread hlast hn
      have hbracket : (before (v :: vs) last).current.kind = .rbracket := hv.trans hz
      have hpos : 0 < (row sep blanks xs).length := by
        obtain ⟨x, xs, rfl⟩ := List.exists_cons_of_ne_nil hxs
        obtain ⟨p, ps, more, hrow, -⟩ := row_cons sep blanks x xs
        rw [hrow]
        exact Nat.succ_pos _
      obtain ⟨k, rfl⟩ : ∃ m, k = m + 1 := ⟨k - 1, by omega⟩
      refine ⟨[nodes], v, vs, ?_, by rw [List.map_singleton, hbares]; rfl, hbracket, hvs⟩
      exact matrixRows_run_more hfirst hrun (accept_run_no (by rw [hbracket]; decide))
        (matrixRows_run_end hbracket k)
    | cons ys rows =>
      rw [grid_cons_cons, List.length_append, List.length_cons] at hn hk
      rw [grid_cons_cons, List.append_assoc, List.cons_append] at hread
      obtain ⟨hfirst, nodes, v, vs, hrun, hbares, hv, hvs⟩ :=
        read_whole_row (n := n) hxs hrow (.inl rfl) hread hlast (by omega)
      have hk : v.kind = .semicolon := hv
      obtain ⟨nodess, w, ws, hrest, hbaress, hw, hws⟩ := ih (k := k) hne
        (fun hblank xs hxs => hapart hblank xs (List.mem_cons_of_mem _ hxs)) hvs (by omega) (by omega)
      refine ⟨nodes :: nodess, w, ws, ?_, by rw [List.map_cons, hbares, hbaress]; rfl, hw, hws⟩
      exact matrixRows_run_more hfirst hrun
        (accept_run_ok hk (Ahead.advance_before (by rw [hk]; decide))) hrest

/-- A text is a program of one line if its tokens are one expression and no assignment. -/
theorem parse_of_expr {file source : String} {ts : List Token} {node : Node}
    (hts : TokenStream.ofChars file source.toList = ⟨ts, .ok last⟩) (hlast : last.kind = .eof)
    (hname : (before ts last).current.kind ≠ .identifier)
    (hnewline : (before ts last).current.kind ≠ .newline) (hnode : node.isEmpty = false)
    (hexpr : expr (2 * (before ts last).size + 1) .ignored (before ts last) =
      .ok (node, before [] last)) :
    ∃ span, Node.parse file source = .ok (.block [node] span) := by
  have hlines : Lines (statement (expr (2 * (before ts last).size + 1) .ignored)) (before ts last)
      [node] := by
    refine .last (b := before ts last) (c := before [] last) (skipNewlines_run_no hnewline _) ?_ hlast
    rw [statement_of_expr fun hk => absurd hk hname, bind_run_ok hexpr, hnode]
    rfl
  obtain ⟨span, b, hprogram⟩ := program_of_lines (Ahead.closed_before hlast ts) hlines
  exact ⟨span, Node.parse_eq_ok_iff.2 ⟨_, b, by rw [hts, Ahead.start_eq_before], hprogram⟩⟩

/-- **The literal of a rectangle of elements is their matrix**, whatever separates them. -/
theorem parse_literal (file : String) {source : String} (hrows : rows ≠ []) {width : Nat}
    (hpos : 0 < width) (hwidth : ∀ xs ∈ rows, xs.length = width)
    (hapart : sep = .blank → ∀ xs ∈ rows, xs.IsChain fun x y => Token.Apart x.tokens y.tokens)
    (hsource : source.toList = Segment.text (literal sep rows) []) :
    ∃ nodes place span, Node.parse file source = .ok (.block [.matrix nodes place] span) ∧
      nodes.map (List.map Node.bare) = rows.map fun xs => xs.map fun x => x.node.bare := by
  have hne : ∀ xs ∈ rows, xs ≠ [] :=
    fun xs hxs => List.ne_nil_of_length_pos (by rw [hwidth xs hxs]; exact hpos)
  have hlegible : Segment.Legible [] (literal sep rows) := legible_literal hne
  obtain ⟨ts, last, hts, hlast, hread⟩ := TokenStream.ofChars_segments file hlegible (by simp)
  have hlength := hread.length_eq
  cases hread with
  | @cons _ _ t us ht _ _ _ _ hus =>
    have hlbracket : t.kind = .lbracket := ht
    rw [List.length_cons, literal, List.length_cons, List.length_append, List.length_singleton] at hlength
    obtain ⟨m, hm⟩ : ∃ m, m = 2 * us.length + 3 := ⟨_, rfl⟩
    obtain ⟨nodes, v, vs, hrun, hbares, hv, hvs⟩ := read_grid (n := m) (k := (before us last).size) hne
      hapart rfl hus hlast (by omega) (Nat.lt_of_le_of_lt (by omega) (Ahead.length_lt_size us last))
    cases hvs
    have hlengths : ∀ row ∈ nodes, row.length = width := length_of_map_eq hbares hwidth
    have hnodes : nodes ≠ [] := by
      rintro rfl
      exact hrows (List.map_eq_nil_iff.1 hbares.symm)
    have hmatrix := matrix_run_ok hlbracket hrun hv hnodes hlengths
    have hexpr : expr (2 * (before (t :: us) last).size + 1) .ignored (before (t :: us) last) =
        .ok (.matrix nodes (some (t.span.upTo v.span)), before [] last) := by
      have hdepth : 2 * (before (t :: us) last).size + 1 = m + 1 + 1 := by
        rw [Ahead.size_before, List.length_cons]
        omega
      have hend : (before [] last).current.kind = .eof := hlast
      rw [hdepth]
      refine expr_of_factor .ignored ?_ (by rw [hend]; rfl) (by rw [hend]; decide)
      rw [factor, factorWith, bind_run_ok (current_run _), Ahead.current_before, hlbracket]
      exact hmatrix
    have hfirst : (before (t :: us) last).current.kind = .lbracket := hlbracket
    have hsource' : TokenStream.ofChars file source.toList = ⟨t :: us, .ok last⟩ := by rw [hsource, hts]
    obtain ⟨span, hparse⟩ :=
      parse_of_expr hsource' hlast (by rw [hfirst]; decide) (by rw [hfirst]; decide) rfl hexpr
    exact ⟨nodes, _, span, hparse, hbares⟩

end Reading

end Element

/-! ## Texts -/

/-- The text is this node, an expression, and has no blank or newline in it. -/
structure Text.Spells (file text : String) (node : Node) : Prop where
  solid : ∀ c ∈ text.toList, Token.isSkipped c = false ∧ c ≠ '\n'
  parse : ∃ span, Node.parse file text = .ok (.block [node] span)
  expression : node.isAssignment = false

/-- The matrix literal with these texts as elements, and with `sep` between those of a row. -/
def Text.matrix (sep : String) (texts : List (List String)) : String :=
  "[" ++ "; ".intercalate (texts.map sep.intercalate) ++ "]"

/-- Two texts stay two elements with a blank between them. -/
def Text.Apart (file first second : String) : Prop :=
  Token.Apart (TokenStream.ofChars file first.toList).tokens (TokenStream.ofChars file second.toList).tokens

namespace Element

variable {file : String} {sep : Separator}

theorem exists_row {texts : List String} {nodes : List Node}
    (h : List.Forall₂ (Text.Spells file) texts nodes) :
    ∃ xs : List Element, xs.map node = nodes ∧ xs.map text = texts.map String.toList ∧
      xs.map tokens = texts.map fun t => (TokenStream.ofChars file t.toList).tokens := by
  induction h with
  | nil => exact ⟨[], rfl, rfl, rfl⟩
  | @cons t node texts nodes ht _ ih =>
    obtain ⟨xs, hnodes, htexts, htokens⟩ := ih
    obtain ⟨span, hparse⟩ := ht.parse
    obtain ⟨x, hx, hxtokens, hxtext⟩ := exists_of_parse ht.solid hparse ht.expression
    refine ⟨x :: xs, ?_, ?_, ?_⟩
    · rw [List.map_cons, hx, hnodes]
    · rw [List.map_cons, List.map_cons, htexts, text, hxtext]
    · rw [List.map_cons, List.map_cons, htokens, hxtokens]

theorem exists_rows {texts : List (List String)} {nodes : List (List Node)}
    (h : List.Forall₂ (List.Forall₂ (Text.Spells file)) texts nodes) :
    ∃ rows : List (List Element), rows.map (List.map node) = nodes ∧
      rows.map (List.map text) = texts.map (List.map String.toList) ∧
      rows.map (List.map tokens) =
        texts.map (List.map fun t => (TokenStream.ofChars file t.toList).tokens) := by
  induction h with
  | nil => exact ⟨[], rfl, rfl, rfl⟩
  | cons ht _ ih =>
    obtain ⟨rows, hnodes, htexts, htokens⟩ := ih
    obtain ⟨xs, hxnodes, hxtexts, hxtokens⟩ := exists_row ht
    exact ⟨xs :: rows, by rw [List.map_cons, hxnodes, hnodes], by simp only [List.map_cons, hxtexts, htexts],
      by simp only [List.map_cons, hxtokens, htokens]⟩

theorem text_literal {rows : List (List Element)} {texts : List (List String)} (hrows : rows ≠ [])
    (hne : ∀ xs ∈ rows, xs ≠ [])
    (htexts : rows.map (List.map text) = texts.map (List.map String.toList)) :
    (Text.matrix sep.text texts).toList = Segment.text (literal sep rows) [] := by
  have hlines : (rows.map fun xs => sep.text.toList.intercalate (xs.map text)) =
      texts.map fun row => (sep.text.intercalate row).toList := by
    have h := congrArg (List.map sep.text.toList.intercalate) htexts
    rw [List.map_map, List.map_map] at h
    simpa only [String.toList_intercalate, Function.comp_def] using h
  rw [literal, Segment.text, Segment.text_append, text_grid hrows hne, hlines]
  simp [Text.matrix, Segment.text, String.toList_intercalate, Function.comp_def]

end Element

namespace Node

open Element in
/-- A literal with texts as elements is the matrix of their nodes. -/
theorem parse_matrix (file : String) (sep : Separator) {texts : List (List String)}
    {nodes : List (List Node)} (hrows : texts ≠ []) {width : Nat} (hpos : 0 < width)
    (hwidth : ∀ row ∈ texts, row.length = width)
    (hnodes : List.Forall₂ (List.Forall₂ (Text.Spells file)) texts nodes)
    (hapart : sep = .blank → ∀ row ∈ texts, row.IsChain (Text.Apart file)) :
    (parse file (Text.matrix sep.text texts)).toOption.map bare =
      some (.block [.matrix (nodes.map (List.map bare)) none] none) := by
  obtain ⟨rows, rfl, htexts, htokens⟩ := exists_rows hnodes
  have hrows' : rows ≠ [] := by
    rintro rfl
    exact hrows (List.map_eq_nil_iff.1 htexts.symm)
  have hwidth' : ∀ xs ∈ rows, xs.length = width := Parser.length_of_map_eq htexts hwidth
  have hne : ∀ xs ∈ rows, xs ≠ [] :=
    fun xs hxs => List.ne_nil_of_length_pos (by rw [hwidth' xs hxs]; exact hpos)
  have hapart' : sep = .blank → ∀ xs ∈ rows, xs.IsChain fun x y => Token.Apart x.tokens y.tokens := by
    intro hblank xs hxs
    have hmem : xs.map tokens ∈ texts.map (List.map fun t => (TokenStream.ofChars file t.toList).tokens) :=
      htokens ▸ List.mem_map_of_mem hxs
    obtain ⟨row, hrow, heq⟩ := List.mem_map.1 hmem
    rw [← List.isChain_map (f := tokens) (R := Token.Apart), ← heq, List.isChain_map]
    exact hapart hblank row hrow
  obtain ⟨es, place, span, hparse, hbares⟩ := parse_literal file hrows' hpos hwidth' hapart'
    (text_literal hrows' hne htexts)
  rw [hparse]
  simp only [Except.toOption, Option.map_some, bare, bareList_eq_map, bareRows_eq_map, hbares, List.map_cons,
    List.map_nil, List.map_map, Function.comp_def]

/-- **Commas and blanks separate elements alike.**  The texts of a rectangle, each of them one expression
without blanks, make the same matrix with commas and with blanks between them, and its elements are what
the texts are on their own.  Commas always separate them.  Blanks do so if no name stands before an
element with a parenthesis in front, and no definition without braces before one with a sign in front. -/
theorem parse_separated (file : String) {texts : List (List String)} {nodes : List (List Node)}
    (hrows : texts ≠ []) {width : Nat} (hpos : 0 < width) (hwidth : ∀ row ∈ texts, row.length = width)
    (hnodes : List.Forall₂ (List.Forall₂ (Text.Spells file)) texts nodes) :
    (parse file (Text.matrix ", " texts)).toOption.map bare =
        some (.block [.matrix (nodes.map (List.map bare)) none] none) ∧
      ((∀ row ∈ texts, row.IsChain (Text.Apart file)) →
        (parse file (Text.matrix " " texts)).toOption.map bare =
          some (.block [.matrix (nodes.map (List.map bare)) none] none)) :=
  ⟨parse_matrix file .comma hrows hpos hwidth hnodes (fun hblank => by cases hblank),
    fun hapart => parse_matrix file .blank hrows hpos hwidth hnodes fun _ => hapart⟩

/-- Signs, calls and parentheses in front of elements and behind them. -/
theorem parse_separated_square :
    (∃ nodes, List.Forall₂ (List.Forall₂ (Text.Spells "<input>")) [["a", "-b"], ["f(x)", "(y)"]] nodes) ∧
      (∀ row ∈ [["a", "-b"], ["f(x)", "(y)"]], row.IsChain (Text.Apart "<input>")) ∧
      (parse "<input>" "[a, -b; f(x), (y)]").toOption.map bare =
        some (.block [.matrix [[.var "a" none, .unary .minus (.var "b" none) none],
          [.call "f" [.var "x" none] none, .var "y" none]] none] none) ∧
      (parse "<input>" "[a -b; f(x) (y)]").toOption.map bare =
        some (.block [.matrix [[.var "a" none, .unary .minus (.var "b" none) none],
          [.call "f" [.var "x" none] none, .var "y" none]] none] none) := by
  have hsolid : ∀ t ∈ ["a", "-b", "f(x)", "(y)"], ∀ c ∈ t.toList, Token.isSkipped c = false ∧ c ≠ '\n' := by
    simp [Token.isSkipped]
  have hspells : List.Forall₂ (List.Forall₂ (Text.Spells "<input>")) [["a", "-b"], ["f(x)", "(y)"]] _ :=
    .cons (.cons ⟨hsolid "a" (by simp), ⟨_, rfl⟩, rfl⟩ (.cons ⟨hsolid "-b" (by simp), ⟨_, rfl⟩, rfl⟩ .nil))
      (.cons (.cons ⟨hsolid "f(x)" (by simp), ⟨_, rfl⟩, rfl⟩
        (.cons ⟨hsolid "(y)" (by simp), ⟨_, rfl⟩, rfl⟩ .nil)) .nil)
  have hapart : ∀ row ∈ [["a", "-b"], ["f(x)", "(y)"]], row.IsChain (Text.Apart "<input>") := by
    refine List.forall_mem_cons.2 ⟨.cons_cons ?_ (.singleton _),
      List.forall_mem_singleton.2 (.cons_cons ?_ (.singleton _))⟩
    · exact .of_kinds (.inl (by decide +kernel)) (.inl (by decide +kernel))
    · exact .of_kinds (.inr (by decide +kernel)) (.inr (by decide +kernel))
  have hwidth : ∀ row ∈ [["a", "-b"], ["f(x)", "(y)"]], row.length = 2 := by decide
  obtain ⟨hcommas, hblanks⟩ := parse_separated "<input>" (by decide) (by decide) hwidth hspells
  exact ⟨⟨_, hspells⟩, hapart, hcommas, hblanks hapart⟩

/-- A blank alone makes a call of a name and a parenthesis, and a sum of the body of a definition and what
has a sign in front. -/
theorem parse_run_together :
    (∃ nodes, List.Forall₂ (List.Forall₂ (Text.Spells "<input>")) [["f", "(x)"]] nodes) ∧
      (parse "<input>" (Text.matrix ", " [["f", "(x)"]])).toOption.map bare =
        some (.block [.matrix [[.var "f" none, .var "x" none]] none] none) ∧
      (parse "<input>" (Text.matrix " " [["f", "(x)"]])).toOption.map bare =
        some (.block [.matrix [[.call "f" [.var "x" none] none]] none] none) ∧
      (∃ nodes, List.Forall₂ (List.Forall₂ (Text.Spells "<input>")) [["f(x)=a", "-b"]] nodes) ∧
      (parse "<input>" (Text.matrix ", " [["f(x)=a", "-b"]])).toOption.map bare =
        some (.block [.matrix [[.define "f" [⟨"x", none⟩] [.var "a" none] none none,
          .unary .minus (.var "b" none) none]] none] none) ∧
      (parse "<input>" (Text.matrix " " [["f(x)=a", "-b"]])).toOption.map bare =
        some (.block [.matrix [[.define "f" [⟨"x", none⟩]
          [.binary (.var "a" none) .sub (.var "b" none) none] none none]] none] none) := by
  have hsolid : ∀ t ∈ ["f", "(x)", "f(x)=a", "-b"], ∀ c ∈ t.toList, Token.isSkipped c = false ∧ c ≠ '\n' := by
    simp [Token.isSkipped]
  refine ⟨⟨_, .cons (.cons ⟨hsolid "f" (by simp), ⟨_, rfl⟩, rfl⟩
      (.cons ⟨hsolid "(x)" (by simp), ⟨_, rfl⟩, rfl⟩ .nil)) .nil⟩, rfl, rfl,
    ⟨_, .cons (.cons ⟨hsolid "f(x)=a" (by simp), ⟨_, rfl⟩, rfl⟩
      (.cons ⟨hsolid "-b" (by simp), ⟨_, rfl⟩, rfl⟩ .nil)) .nil⟩, rfl, rfl⟩

end Node

end Reckon
