import Mathlib.Data.List.Basic
import Reckon.Proofs.Lexing.Next
import Reckon.Proofs.Lexing.Position
import Reckon.Proofs.Printing.Legible

/-!
# The tokens of a printed text

Reading a clear row of chunks gives one token for each lexeme and nothing for a blank (`Reads`).  Of
the places of the tokens only two things are kept: a lexeme with a blank behind it knows that, and a
numeral with a lexeme right behind it ends where that one starts.  Both hold of each part of a row as
well, so that a row can be taken apart (`Reads.append`).
-/

namespace Reckon

/-- The tokens that a row of chunks is read as. -/
inductive Reads : List Chunk → List Token → Prop where
  | nil : Reads [] []
  | blank {ps : List Chunk} {ts : List Token} (tail : Reads ps ts) : Reads (.blank :: ps) ts
  | lexeme {k : Token.Kind} {cs : List Char} {ps : List Chunk} {t : Token} {ts : List Token}
      (kind : t.kind = k) (text : t.text = String.ofList cs) (notEnd : k ≠ .eof)
      (apart : ps.head? = some .blank → t.blankAfter = true)
      (touches : k = .number → ∀ p ∈ ps.head?, p ≠ .blank → ∀ u ∈ ts.head?, t.Touches u)
      (tail : Reads ps ts) : Reads (.lexeme k cs :: ps) (t :: ts)

/-- The tokens of a row are those of its two parts. -/
theorem Reads.append {ps qs : List Chunk} {ts : List Token} (h : Reads (ps ++ qs) ts) :
    ∃ us vs, ts = us ++ vs ∧ Reads ps us ∧ Reads qs vs := by
  induction ps generalizing ts with
  | nil => exact ⟨[], ts, rfl, .nil, h⟩
  | cons p ps ih =>
    rw [List.cons_append] at h
    cases h with
    | blank h =>
      obtain ⟨us, vs, rfl, hu, hv⟩ := ih h
      exact ⟨us, vs, rfl, .blank hu, hv⟩
    | @lexeme k cs _ t ts hk ht hne ha hto h =>
      obtain ⟨us, vs, rfl, hu, hv⟩ := ih h
      refine ⟨t :: us, vs, rfl, .lexeme hk ht hne (fun hb => ha ?_) (fun hn p hp hne u hu => ?_) hu,
        hv⟩
      · exact List.mem_head?_append_of_mem_head? hb
      · exact hto hn p (List.mem_head?_append_of_mem_head? hp) hne u
          (List.mem_head?_append_of_mem_head? hu)

namespace Cursor

variable {file : String} {c : Cursor} {x : Char} {r : List Char}

theorem charAt_zero (h : c.after = x :: r) : c.charAt 0 = x := by
  unfold charAt
  rw [h]
  rfl

/-- A blank makes no difference to the tokens behind it. -/
theorem skipBlanks_step (h : c.after = x :: r) (hx : Token.isSkipped x = true) :
    c.skipBlanks = c.step.skipBlanks := by
  have hs : c.step.after = r := by rw [step_after, h]; rfl
  unfold skipBlanks
  rw [h, hs, List.takeWhile_cons_of_pos hx, List.length_cons, advance_succ]

theorem next_step (h : c.after = x :: r) (hx : Token.isSkipped x = true) :
    c.next file = c.step.next file := by
  unfold next
  dsimp only
  rw [skipBlanks_step h hx]

theorem lexFrom_step (n : Nat) (h : c.after = x :: r) (hx : Token.isSkipped x = true) :
    c.lexFrom file n = c.step.lexFrom file n := by
  cases n with
  | zero => rw [lexFrom, lexFrom, next_step h hx]
  | succ n => rw [lexFrom, lexFrom, next_step h hx]

/-- A numeral ends right before the place behind it. -/
theorem token_touches {cs rest : List Char} (hc : c.after = cs ++ rest) (hcol : 1 ≤ c.col)
    (hs : Token.scan? (cs ++ rest) = some (cs, .number)) {u : Token}
    (hu : u.span.startLine = (c.advance cs.length).line ∧
      u.span.startCol = (c.advance cs.length).col) :
    (token file .number cs c (c.advance cs.length)).Touches u := by
  obtain ⟨hel, hec⟩ := token_end file (k := .number) (by simp) cs c (c.advance cs.length)
  obtain ⟨hcolumn, -⟩ := advance_col hc (Token.newline_notMem_of_scan?_number hs)
  have hpos : 0 < cs.length := List.length_pos_iff.2 (Token.scan?_ne_nil hs)
  refine ⟨hu.1.trans hel.symm, ?_⟩
  rw [hu.2, hec, hcolumn]
  omega

/-! ## All tokens -/

/-- A clear row of chunks is read as its lexemes, up to the end of input. -/
theorem lexFrom_reads (file : String) {ps : List Chunk} {n : Nat} (hc : c.after = Chunk.text ps)
    (hcol : 1 ≤ c.col) (hp : Chunk.Clear ps []) (hn : c.after.length ≤ n) :
    ∃ ts last d, c.lexFrom file n = (ts, .ok last, d) ∧ last.kind = .eof ∧ Reads ps ts ∧
      (∀ p ∈ ps.head?, p ≠ .blank → ∀ u ∈ ts.head?,
        u.span.startLine = c.line ∧ u.span.startCol = c.col) := by
  -- The last part is there for the induction: a numeral touches the token that comes next.
  induction ps generalizing c n with
  | nil =>
    have hempty : c.skipBlanks.after = [] := by
      rw [skipBlanks_after, hc]
      rfl
    have hnext := next_of_empty file hempty
    refine ⟨[], token file .eof [] c.skipBlanks c.skipBlanks, c.skipBlanks, ?_, rfl, .nil,
      fun p hp => by cases hp⟩
    cases n with
    | zero => rw [lexFrom, hnext]
    | succ n =>
      rw [lexFrom, hnext]
      exact if_pos rfl
  | cons p ps ih =>
    cases p with
    | blank =>
      have hc' : c.after = ' ' :: Chunk.text ps := hc
      have hs : c.step.after = Chunk.text ps := by rw [step_after, hc']; rfl
      rw [lexFrom_step n hc' (by decide)]
      have hlen : c.step.after.length ≤ n := by
        rw [hs]
        rw [hc', List.length_cons] at hn
        omega
      obtain ⟨ts, last, d, hl, he, hr, -⟩ := ih hs (step_col_pos hcol) hp hlen
      exact ⟨ts, last, d, hl, he, .blank hr, fun p hp hne => by cases hp; exact absurd rfl hne⟩
    | lexeme k cs =>
      obtain ⟨hs, hclear⟩ := hp
      rw [List.append_nil] at hs
      have hc' : c.after = cs ++ Chunk.text ps := hc
      have hd : (c.advance cs.length).after = Chunk.text ps := by
        rw [advance_after, hc', List.drop_left]
      have hpos : 0 < cs.length := List.length_pos_iff.2 (Token.scan?_ne_nil hs)
      have hk := Token.scan?_kind_ne_eof hs
      rw [hc', List.length_append] at hn
      cases n with
      | zero => omega
      | succ n =>
        obtain ⟨ts, last, d, hl, he, hr, hstart⟩ :=
          ih (n := n) hd (advance_col_pos _ hcol) hclear (by rw [hd]; omega)
        refine ⟨token file k cs c (c.advance cs.length) :: ts, last, d, ?_, he,
          .lexeme rfl rfl hk (fun hb => ?_) (fun hnum => ?_) hr, fun _ _ _ u hu => ?_⟩
        · rw [lexFrom, next_lexeme hc' hs]
          refine (if_neg hk).trans ?_
          rw [hl]
        · -- The blank is the character behind the lexeme.
          cases ps with
          | nil => cases hb
          | cons q qs =>
            cases hb
            show isGap ((c.advance cs.length).charAt 0) = true
            rw [charAt_zero hd]
            rfl
        · subst hnum
          exact fun p hp hne u hu => token_touches hc' hcol hs (hstart p hp hne u hu)
        · cases hu
          exact token_start _ k cs _ _

end Cursor

/-- The tokens of a clear text. -/
theorem TokenStream.ofChars_reads (file : String) {ps : List Chunk} (hp : Chunk.Clear ps []) :
    ∃ ts last, ofChars file (Chunk.text ps) = ⟨ts, .ok last⟩ ∧ last.kind = .eof ∧ Reads ps ts := by
  obtain ⟨ts, last, d, hl, he, hr, -⟩ :=
    Cursor.lexFrom_reads file (c := Cursor.start (Chunk.text ps)) rfl (Nat.le_refl 1) hp (Nat.le_refl _)
  refine ⟨ts, last, ?_, he, hr⟩
  unfold ofChars Cursor.lex
  rw [hl]

end Reckon
