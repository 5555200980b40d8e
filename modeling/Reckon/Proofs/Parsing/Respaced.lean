import Reckon.Proofs.Lexing.Respaced
import Reckon.Proofs.Parsing.Joined

/-!
# Blanks in a program

Which blanks stand between the lexemes of a program does not matter, only where they stand: a text with
other runs of blanks is a program if and only if the text is one, and then the same one up to spans
(`Node.parse_respaced`).  There is one exception, in the rows of a matrix.  A sign that is set apart from
its left neighbour and touches its right one starts a new element there, and only spaces and tabs set it
apart; so `KeepsSigns` is asked for.  A form feed is skipped like a space, but does not do this.
-/

namespace Reckon

namespace Segment

variable {rest rest' : List Char} {ps ps' qs : List Segment} {ts ts' : List Token} {last : Token}

/-- The tokens of segments come again where the same lexemes stand, with other blanks and more behind them:
unless what follows is a name right behind them, which could be a unit. -/
theorem ReadAs.retold (hps : Respaced rest (text qs rest') ps ps') (h : ReadAs rest ps ts)
    (h' : ReadAs rest' (ps' ++ qs) ts') (hqs : ∀ q ∈ qs.head?, q.kind = .identifier → q.blanks ≠ [])
    (hlast : last.kind ≠ .identifier) :
    ∃ us vs, ts' = us ++ vs ∧ ReadAs rest' qs vs ∧ Token.Retold (vs.headD last) ts us := by
  induction hps generalizing ts ts' with
  | nil =>
    cases h
    exact ⟨[], ts', rfl, h', .nil⟩
  | @cons p p' ps ps' hkind hlexeme hblanks hjoins htail ih =>
    cases h with
    | @cons _ _ t ts hk ht hbefore hafter htouches hread =>
      rw [List.cons_append] at h'
      cases h' with
      | @cons _ _ t' ts' hk' ht' hbefore' hafter' htouches' hread' =>
        obtain ⟨us, vs, rfl, hvs, hretold⟩ := ih hread hread'
        have halike : t.Alike t' := by
          refine .of_joins (by rw [hk', hkind, hk]) (by rw [ht', hlexeme, ht]) fun hsign => ?_
          rw [Token.joinsNeighbours, Token.joinsNeighbours, hbefore', hafter', hbefore, hafter,
            text_append]
          exact hjoins (hk ▸ hsign)
        refine ⟨t' :: us, vs, rfl, hvs, .cons halike (fun hnumber => ?_) hretold⟩
        have hnumber' : p'.kind = .number := by rw [hkind, ← hk, hnumber]
        have htouch := htouches (hk ▸ hnumber)
        have htouch' := htouches' hnumber'
        cases hretold with
        | nil =>
          -- The last segment is a number, and what follows it is no unit.
          cases hread
          cases htail
          refine ⟨fun hunit => ?_, fun hunit => ?_⟩
          · cases hvs with
            | nil => exact absurd hunit.1 hlast
            | @cons q qs u vs hq =>
              exact absurd ((htouch' q rfl u rfl).1 hunit.2.2) (hqs q rfl (hq ▸ hunit.1))
          · obtain ⟨u, hu, -⟩ := hunit
            cases hu
        | @cons u u' _ _ hu =>
          cases htail with
          | nil => cases hread
          | @cons q q' _ _ _ _ hnil =>
            have hiff : t'.Touches u' ↔ t.Touches u :=
              (htouch' q' rfl u' rfl).trans (hnil.trans (htouch q rfl u rfl).symm)
            simp only [List.headD_cons, List.head?_cons, Option.mem_some_iff, exists_eq_left',
              Token.HasUnit, hu.kind, hu.text, hiff]

end Segment

namespace Node

open Reckon.Parser Ahead
open Text (Respaced KeepsSigns)

/-- A program with other blanks is the same program. -/
theorem parse_ok_of_respaced {file source source' : String}
    (h : Respaced KeepsSigns none source.toList source'.toList) {p : Node}
    (hp : parse file source = .ok p) : ∃ p', parse file source' = .ok p' ∧ p'.bare = p.bare := by
  obtain ⟨ts, last, cs, span, hts, rfl, hlines⟩ := lines_of_parse hp
  obtain ⟨hkinds, hlast⟩ := TokenStream.kind_of_ofChars hts
  obtain ⟨ps, tail, hsource, hps, htail⟩ := TokenStream.exists_segments hts
  rw [hsource] at h hts
  obtain ⟨ps', tail', hsource', hps', htail', hrespaced⟩ := h.segments hps htail
  obtain ⟨us, end₁, hus, -, hread⟩ := TokenStream.ofChars_segments file hps htail
  obtain ⟨ts', last', hts', hlast', hread'⟩ := TokenStream.ofChars_segments file hps' htail'
  cases hts.symm.trans hus
  rw [← List.append_nil ps'] at hread'
  have hname : last'.kind ≠ .identifier := by
    rw [hlast']
    decide
  obtain ⟨us', vs, rfl, hvs, hretold⟩ :=
    Segment.ReadAs.retold hrespaced hread hread' (fun q hq => by cases hq) hname
  cases hvs
  let whole : Excerpt := ⟨[], last, last', hlast, hlast', by
    show last'.kind ∉ _
    rw [hlast']
    decide⟩
  have hsize : (before (us' ++ []) last').size = (before ts last).size := by
    rw [size_before, size_before, List.append_nil, hretold.length_eq]
  have hwhole : ∃ cs', cs'.map bare = cs.map bare ∧ Lines
      (statement (expr (2 * (before ts last).size + 1) .ignored)) (before (us' ++ []) last') (cs' ++ []) :=
    lines_in_excerpt (X := whole) (absurd rfl) (Nat.le_refl _) hretold hkinds (fun _ => rfl) (absurd rfl)
      hlines
  obtain ⟨cs', hcs', hlines'⟩ := hwhole
  rw [List.append_nil cs', ← hsize] at hlines'
  obtain ⟨span', b, hrun⟩ := program_of_lines (closed_before hlast' _) hlines'
  refine ⟨.block cs' span', parse_eq_ok_iff.2 ⟨_, b, ?_, hrun⟩, ?_⟩
  · rw [hsource', hts', start_eq_before]
  · simp only [bare, bareList_eq_map, hcs']

/-- **Only the presence of blanks matters**, but next to signs.  Replacing each run of blanks by another one,
with a space or a tab next to the same signs, gives a text that is a program if and only if the first one
is, and then the same one up to spans. -/
theorem parse_respaced (file : String) {source source' : String}
    (h : Respaced KeepsSigns none source.toList source'.toList) :
    (parse file source').toOption.map bare = (parse file source).toOption.map bare := by
  have hsymm : Respaced KeepsSigns none source'.toList source.toList :=
    h.symm fun hkeeps => ⟨fun hp => (hkeeps.behind hp).symm, fun hn => (hkeeps.before hn).symm⟩
  cases hp : parse file source with
  | ok p =>
    obtain ⟨p', hp', hbare⟩ := parse_ok_of_respaced h hp
    rw [hp']
    exact congrArg some hbare
  | error e =>
    cases hp' : parse file source' with
    | error e' => rfl
    | ok p' =>
      obtain ⟨p, hok, -⟩ := parse_ok_of_respaced hsymm hp'
      rw [hp] at hok
      cases hok

/-- Three runs around signs in a matrix row and one at the end of the text. -/
theorem parse_respaced_row :
    Respaced KeepsSigns none "[a - b -c] ".toList "[a\x0c -\t\x0bb\t-c]\r".toList ∧
      (parse "<input>" "[a - b -c] ").toBool = true ∧
      (parse "<input>" "[a\x0c -\t\x0bb\t-c]\r").toOption.map bare =
        (parse "<input>" "[a - b -c] ").toOption.map bare := by
  have h : Respaced KeepsSigns none "[a - b -c] ".toList "[a\x0c -\t\x0bb\t-c]\r".toList := by
    refine .char rfl (.char rfl ?_)
    refine .of_all [' '] ['\x0c', ' '] (by decide) (by decide) rfl ⟨by decide, by decide⟩ ?_
    refine .char rfl ?_
    refine .of_all [' '] ['\t', '\x0b'] (by decide) (by decide) rfl ⟨by decide, by decide⟩ ?_
    refine .char rfl ?_
    refine .of_all [' '] ['\t'] (by decide) (by decide) rfl ⟨by decide, by decide⟩ ?_
    refine .char rfl (.char rfl (.char rfl ?_))
    exact .of_all [' '] ['\r'] (by decide) (by decide) rfl ⟨by decide, by decide⟩ .nil
  exact ⟨h, by decide +kernel, parse_respaced "<input>" h⟩

-- A form feed in place of the space before a sign makes one element of two.
example : (parse "<input>" "[a -b]").toOption.map bare =
      some (.block [.matrix [[.var "a" none, .unary .minus (.var "b" none) none]] none] none) ∧
    (parse "<input>" "[a\x0c-b]").toOption.map bare =
      some (.block [.matrix [[.binary (.var "a" none) .sub (.var "b" none) none]] none] none) :=
  ⟨rfl, rfl⟩

end Node

end Reckon
