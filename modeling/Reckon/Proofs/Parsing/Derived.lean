import Reckon.Proofs.Parsing.Joined
import Reckon.Proofs.Parsing.Taken

/-!
# Programs are derivable

Every rule of the parser takes a sequence of tokens that the grammar derives, with one exception: behind
the comma after an argument it takes a closing parenthesis as well as another argument.  Where no comma
stands right before a closing parenthesis this makes no difference.  So the tokens of a program are
derivable exactly if none does (`Node.derives_of_parse`): a comma at the end of an argument list is the
only thing outside the grammar that the parser lets through.

Operators are read by climbing; the layers of the grammar are those of the parser with one layer for each
level, which reads the same.
-/

namespace Reckon

open Grammar

namespace Parser

open Ahead

variable {φ : Category} {p factor expr element : Parser Node} {statements : Parser (List Node)}
  {a b c : Ahead} {x : Node}

/-! ## Operators -/

/-- From a left operand on, operators of one level are taken, if there are any. -/
theorem foldLevel_derives {spacing : Spacing} {level : Nat} (ho : ReadsAs (.layer spacing level) p)
    (n : Nat) {left : Node} (ha : a.Tidy) (h : foldLevel p spacing level n left a = .ok (x, b)) :
    (x = left ∧ b = a) ∨ (left.isEmpty = false ∧ x.isEmpty = false ∧
      ∀ us, Derives (.layer spacing (level + 1)) us →
        ∃ ts, a.Takes ts b ∧ Derives (.layer spacing (level + 1)) (us ++ ts)) := by
  induction n generalizing left a with
  | zero => cases h
  | succ n ih =>
    cases hop : operatorAt? spacing level a.current with
    | none =>
      rw [foldLevel_none hop] at h
      cases h
      exact .inl ⟨rfl, rfl⟩
    | some op =>
      have hk := kind_ne_eof_of_operator? (operatorAt?_eq_some_iff.1 hop).1
      rw [foldLevel_some hop] at h
      simp only [join, bind_assoc, pure_bind] at h
      obtain ⟨l, a', hl, h₁⟩ := bind_eq_ok h
      obtain ⟨rfl, rfl, hleft⟩ := require_eq_ok hl
      obtain ⟨a₁, htakes, ha₁, -, h₂⟩ := bind_advance ha hk h₁
      obtain ⟨right, d, vs, hvs, hderives, hd, -, hrest⟩ := ho.bind_require ha₁ h₂
      have hoperation : ∀ us, Derives (.layer spacing (level + 1)) us →
          Derives (.layer spacing (level + 1)) (us ++ a'.current :: vs) :=
        fun us hus => .operation hus hop hderives
      have htaken := htakes.trans hvs
      rcases ih hd hrest with ⟨rfl, rfl⟩ | ⟨-, hx, hmore⟩
      · exact .inr ⟨hleft, rfl, fun us hus => ⟨_, htaken, hoperation us hus⟩⟩
      · refine .inr ⟨hleft, hx, fun us hus => ?_⟩
        obtain ⟨ts, hts, hderives⟩ := hmore _ (hoperation us hus)
        rw [List.append_assoc] at hderives
        exact ⟨_, htaken.trans hts, hderives⟩

theorem ReadsAs.layered (hf : ReadsAs .factor factor) (spacing : Spacing) (bound : Nat) :
    ReadsAs (.layer spacing bound) (layered factor spacing bound) := by
  induction bound with
  | zero =>
    intro a ha x b h
    rcases hf a ha x b h with hnone | ⟨hsome, ts, hts, hderives⟩
    · exact .inl hnone
    · exact .inr ⟨hsome, ts, hts, .operand hderives⟩
  | succ level ih =>
    intro a ha x b h
    obtain ⟨left, c, hleft, hfold⟩ := bind_eq_ok h
    rw [bounded_run] at hfold
    rcases ih a ha left c hleft with ⟨hnone, rfl⟩ | ⟨hsome, ts, hts, hderives⟩
    · rcases foldLevel_derives ih _ ha hfold with ⟨rfl, rfl⟩ | ⟨hsome, -⟩
      · exact .inl ⟨hnone, rfl⟩
      · rw [hnone] at hsome
        cases hsome
    · rcases foldLevel_derives ih _ (ha.takes hts) hfold with ⟨rfl, rfl⟩ | ⟨-, hx, hmore⟩
      · exact .inr ⟨hsome, ts, hts, .tighter hderives⟩
      · obtain ⟨us, hus, hderives⟩ := hmore ts (.tighter hderives)
        exact .inr ⟨hx, ts ++ us, hts.trans hus, hderives⟩

theorem ReadsAs.ternaryWith {spacing : Spacing} (hm : Moves factor) (hf : ReadsAs .factor factor)
    (he : ReadsAs (.expr spacing) expr) : ReadsAs (.expr spacing) (ternaryWith factor expr spacing) := by
  intro a ha x b h
  obtain ⟨condition, c, hcondition, h₁⟩ := bind_eq_ok h
  rw [binary_eq_layered_of_moves hm spacing _ ha.closed] at hcondition
  have hlayer := hf.layered spacing BinaryOp.levels
  rw [bind_run_ok (at?_run _ c)] at h₁
  split at h₁
  · rename_i hq
    rw [beq_iff_eq] at hq
    obtain ⟨ts, hts, hderives, hc, -, h₂⟩ := hlayer.of_require ha hcondition h₁
    obtain ⟨a₁, hqt, ha₁, -, h₃⟩ := bind_advance hc (by rw [hq]; decide) h₂
    obtain ⟨yes, a₂, us, hus, hderives₁, ha₂, -, h₄⟩ := he.bind_require ha₁ h₃
    obtain ⟨colon, a₃, hck, hct, ha₃, h₅⟩ := bind_expect ha₂ (by decide) h₄
    obtain ⟨no, a₄, vs, hvs, hderives₂, -, -, h₆⟩ := he.bind_require ha₃ h₅
    cases h₆
    refine .inr ⟨rfl, _, ?_, .conditional hderives hq hderives₁ hck hderives₂⟩
    exact (hts.trans (hqt.trans hus)).trans (hct.trans hvs)
  · cases h₁
    rcases hlayer a ha x b hcondition with hnone | ⟨hsome, ts, hts, hderives⟩
    · exact .inl hnone
    · exact .inr ⟨hsome, ts, hts, .operations hderives⟩

/-! ## Operands -/

/-- A number, with its unit if one touches it. -/
theorem number_derives (ha : a.Tidy) (hk : a.current.kind = .number) :
    ReadsAt .factor a number := by
  intro x b h
  obtain ⟨c, htakes, hc, -, h₁⟩ := bind_advance ha (by rw [hk]; decide) h
  refine .inr ?_
  rw [bind_run_ok (current_run c)] at h₁
  cases hunit : LengthUnit.ofSymbol? c.current.text with
  | none =>
    rw [hunit] at h₁
    cases h₁
    exact ⟨rfl, _, htakes, .number hk⟩
  | some unit =>
    rw [hunit] at h₁
    dsimp only at h₁
    split at h₁
    · rename_i hnext
      obtain ⟨d, hunitTakes, -, -, h₂⟩ := bind_advance hc (by rw [hnext.1]; decide) h₁
      cases h₂
      have hunitOf : IsUnitOf a.current c.current :=
        ⟨hnext.1, Option.isSome_iff_exists.2 ⟨unit, hunit⟩, hnext.2.1, hnext.2.2⟩
      exact ⟨rfl, _, htakes.trans hunitTakes, .quantity hk hunitOf⟩
    · cases h₁
      exact ⟨rfl, _, htakes, .number hk⟩

/-- Arguments up to a closing parenthesis that does not stand here.  Behind a comma it does not stand
either. -/
theorem argumentList_derives (he : ReadsAs (.expr .ignored) expr) (n : Nat) {xs : List Node}
    (ha : a.Tidy) (hk : a.current.kind ≠ .rparen) (h : arguments expr n a = .ok (xs, b)) :
    ∃ ts, a.Takes ts b ∧ Derives .argumentList ts := by
  induction n generalizing a xs with
  | zero => cases h
  | succ n ih =>
    rw [arguments, bind_run_ok (at?_run _ a), if_neg (mt beq_iff_eq.1 hk)] at h
    obtain ⟨x, c, ts, hts, hderives, hc, -, h₁⟩ := he.bind_require ha h
    rcases bind_accept hc (by decide) h₁ with ⟨hcomma, d, htakes, hd, hadv, h₂⟩ | ⟨-, h₂⟩
    · obtain ⟨ys, e, hys, h₃⟩ := bind_eq_ok h₂
      cases h₃
      obtain ⟨us, hus, hrest⟩ := ih hd (hc.comma c d (.refl c) hcomma hadv) hys
      exact ⟨_, hts.trans (htakes.trans hus), .moreArguments hderives hcomma hrest⟩
    · cases h₂
      exact ⟨ts, hts, .argument hderives⟩

theorem arguments_derives (he : ReadsAs (.expr .ignored) expr) (n : Nat) :
    TakesAs .arguments (arguments expr n) := by
  intro a ha xs b h
  by_cases hk : a.current.kind = .rparen
  · cases n with
    | zero => cases h
    | succ n =>
      rw [arguments, bind_run_ok (at?_run _ a), if_pos (beq_iff_eq.2 hk)] at h
      cases h
      exact ⟨[], .refl a, .noArguments⟩
  · obtain ⟨ts, hts, hderives⟩ := argumentList_derives he n ha hk h
    exact ⟨ts, hts, .someArguments hderives⟩

/-- A name and arguments between parentheses. -/
theorem call_derives (he : ReadsAs (.expr .ignored) expr) (ha : a.Tidy)
    (hk : a.current.kind = .identifier) {called : String × List Node × Option Span}
    (h : call expr a = .ok (called, b)) :
    ∃ f l r ts, a.Takes (f :: l :: ts ++ [r]) b ∧ f.kind = .identifier ∧ l.kind = .lparen ∧
      r.kind = .rparen ∧ Derives .arguments ts := by
  obtain ⟨a₁, hf, ha₁, -, h₁⟩ := bind_advance ha (by rw [hk]; decide) h
  obtain ⟨l, a₂, hlk, hl, ha₂, h₂⟩ := bind_expect ha₁ (by decide) h₁
  obtain ⟨args, a₃, hargs, h₃⟩ := bind_eq_ok h₂
  rw [bounded_run] at hargs
  obtain ⟨ts, hts, hderives⟩ := arguments_derives he _ a₂ ha₂ args a₃ hargs
  obtain ⟨r, a₄, hrk, hr, -, h₄⟩ := bind_expect (ha₂.takes hts) (by decide) h₃
  cases h₄
  exact ⟨_, l, r, ts, (hf.trans (hl.trans hts)).trans hr, hk, hlk, hrk, hderives⟩

theorem body_derives (he : ReadsAs (.expr .ignored) expr)
    (hs : TakesAs .statements statements) : TakesAs .body (body expr statements) := by
  intro a ha block b h
  rw [body, bind_run_ok (at?_run _ a)] at h
  split at h
  · rename_i hk
    rw [beq_iff_eq] at hk
    obtain ⟨a₁, hl, ha₁, -, h₁⟩ := bind_advance ha (by rw [hk]; decide) h
    obtain ⟨xs, a₂, hxs, h₂⟩ := bind_eq_ok h₁
    obtain ⟨ts, hts, hderives⟩ := hs a₁ ha₁ xs a₂ hxs
    obtain ⟨r, a₃, hrk, hr, -, h₃⟩ := bind_expect (ha₁.takes hts) (by decide) h₂
    cases h₃
    exact ⟨_, (hl.trans hts).trans hr, .block hk hderives hrk⟩
  · obtain ⟨x, c, ts, hts, hderives, -, -, h₁⟩ := he.bind_require ha h
    cases h₁
    exact ⟨ts, hts, .value hderives⟩

theorem callOrDefinition_derives (he : ReadsAs (.expr .ignored) expr)
    (hs : TakesAs .statements statements) (ha : a.Tidy) (hk : a.current.kind = .identifier) :
    ReadsAt .factor a (callOrDefinition expr statements) := by
  intro x b h
  obtain ⟨⟨name, args, span⟩, c, hcall, h₁⟩ := bind_eq_ok h
  obtain ⟨f, l, r, ts, hts, hf, hl, hr, hargs⟩ := call_derives he ha hk hcall
  have hc := ha.takes hts
  dsimp only at h₁
  rw [bind_run_ok (current_run c)] at h₁
  split at h₁
  · rename_i hdefines
    have hne : c.current.kind ≠ .eof := by
      rcases hdefines with hk | hk <;> rw [hk] <;> decide
    obtain ⟨a₁, hsign, ha₁, -, h₂⟩ := bind_advance hc hne h₁
    obtain ⟨ps, a₂, hps, h₃⟩ := bind_eq_ok h₂
    obtain rfl := eq_of_parameters hps
    obtain ⟨block, a₃, hbody, h₄⟩ := bind_eq_ok h₃
    obtain ⟨us, hus, hderives⟩ := body_derives he hs _ ha₁ block a₃ hbody
    cases h₄
    exact .inr ⟨rfl, _, hts.trans (hsign.trans hus), .definition hf hl hargs hr hdefines hderives⟩
  · cases h₁
    exact .inr ⟨rfl, _, hts, .call hf hl hargs hr⟩

/-! ## Matrices -/

/-- A row goes up to a semicolon or a closing bracket. -/
theorem matrixRow_derives (he : ReadsAs (.expr .matters) element) (n : Nat) {xs : List Node}
    (ha : a.Tidy) (h : matrixRow element n a = .ok (xs, b)) :
    (∃ ts, a.Takes ts b ∧ Derives .row ts) ∧
      (b.current.kind = .semicolon ∨ b.current.kind = .rbracket) := by
  induction n generalizing a xs with
  | zero => cases h
  | succ n ih =>
    obtain ⟨x, c, hx, h₁⟩ := bind_eq_ok h
    split at h₁
    · cases h₁
    · rename_i hsome
      rcases he a ha x c hx with ⟨hnone, -⟩ | ⟨-, ts, hts, hderives⟩
      · exact absurd hnone hsome
      · have hc := ha.takes hts
        rw [bind_run_ok (current_run c)] at h₁
        split at h₁
        · rename_i hends
          cases h₁
          exact ⟨⟨ts, hts, .element hderives⟩, hends⟩
        · rcases bind_accept hc (by decide) h₁ with ⟨hcomma, d, htakes, hd, -, h₂⟩ | ⟨-, h₂⟩
          · obtain ⟨ys, e, hys, h₃⟩ := bind_eq_ok h₂
            cases h₃
            obtain ⟨⟨us, hus, hrest⟩, hends⟩ := ih hd hys
            exact ⟨⟨_, hts.trans (htakes.trans hus), .commaElement hderives hcomma hrest⟩, hends⟩
          · obtain ⟨ys, e, hys, h₃⟩ := bind_eq_ok h₂
            cases h₃
            obtain ⟨⟨us, hus, hrest⟩, hends⟩ := ih hc hys
            exact ⟨⟨_, hts.trans hus, .nextElement hderives hrest⟩, hends⟩

/-- At a closing bracket there are no rows, elsewhere there is one at least. -/
theorem matrixRows_derives (he : ReadsAs (.expr .matters) element) (n : Nat)
    {rows : List (List Node)} (ha : a.Tidy) (h : matrixRows element n a = .ok (rows, b)) :
    (a.current.kind = .rbracket ∧ rows = [] ∧ b = a) ∨ ∃ ts, a.Takes ts b ∧ Derives .rows ts := by
  induction n generalizing a rows with
  | zero => cases h
  | succ n ih =>
    rw [matrixRows, bind_run_ok (at?_run _ a)] at h
    split at h
    · rename_i hk
      cases h
      exact .inl ⟨beq_iff_eq.1 hk, rfl, rfl⟩
    · obtain ⟨row, c, hrow, h₁⟩ := bind_eq_ok h
      rw [bounded_run] at hrow
      obtain ⟨⟨ts, hts, hderives⟩, hends⟩ := matrixRow_derives he _ ha hrow
      have hc := ha.takes hts
      rcases bind_accept hc (by decide) h₁ with ⟨hsemi, d, htakes, hd, -, h₂⟩ | ⟨hsemi, h₂⟩
      · obtain ⟨more, e, hmore, h₃⟩ := bind_eq_ok h₂
        cases h₃
        rcases ih hd hmore with ⟨-, -, rfl⟩ | ⟨us, hus, hrest⟩
        · exact .inr ⟨_, hts.trans htakes, .lastRow hderives hsemi⟩
        · exact .inr ⟨_, hts.trans (htakes.trans hus), .moreRows hderives hsemi hrest⟩
      · obtain ⟨more, e, hmore, h₃⟩ := bind_eq_ok h₂
        cases h₃
        -- The row ended at the closing bracket, so no rows follow.
        have hbracket := hends.resolve_left hsemi
        cases n with
        | zero => cases hmore
        | succ n =>
          rw [matrixRows, bind_run_ok (at?_run _ c), if_pos (beq_iff_eq.2 hbracket)] at hmore
          cases hmore
          exact .inr ⟨ts, hts, .row hderives⟩

theorem ReadsAs.matrix (he : ReadsAs (.expr .matters) element) :
    ReadsAs .factor (matrix element) := by
  intro a ha x b h
  obtain ⟨l, a₁, hlk, hl, ha₁, h₁⟩ := bind_expect ha (by decide) h
  obtain ⟨rows, a₂, hrows, h₂⟩ := bind_eq_ok h₁
  rw [bounded_run] at hrows
  rcases matrixRows_derives he _ ha₁ hrows with ⟨-, rfl, rfl⟩ | ⟨ts, hts, hderives⟩
  · obtain ⟨r, a₃, -, -, -, h₃⟩ := bind_expect ha₁ (by decide) h₂
    cases h₃
  · obtain ⟨r, a₃, hrk, hr, -, h₃⟩ := bind_expect (ha₁.takes hts) (by decide) h₂
    cases rows with
    | nil => cases h₃
    | cons row rest =>
      dsimp only at h₃
      cases huneven : unevenRow? row.length 2 rest with
      | some uneven =>
        rw [huneven] at h₃
        cases h₃
      | none =>
        rw [huneven] at h₃
        cases h₃
        exact .inr ⟨rfl, _, (hl.trans hts).trans hr, .matrix hlk hderives hrk⟩

theorem ReadsAs.factorWith {expr : Spacing → Parser Node} (hf : ReadsAs .factor factor)
    (he : ∀ s, ReadsAs (.expr s) (expr s))
    (hs : TakesAs .statements statements) :
    ReadsAs .factor (factorWith factor expr statements) := by
  intro a ha
  refine ReadsAt.current ?_
  split
  · rename_i op hop
    intro x b h
    have hk : a.current.kind ≠ .eof := by
      intro hk
      rw [hk] at hop
      cases hop
    obtain ⟨a₁, ht, ha₁, -, h₁⟩ := bind_advance ha hk h
    obtain ⟨y, a₂, ts, hts, hderives, -, -, h₂⟩ := hf.bind_require ha₁ h₁
    cases h₂
    exact .inr ⟨rfl, _, ht.trans hts, .sign hop hderives⟩
  · split
    · rename_i hk
      exact number_derives ha hk
    · rename_i hk
      intro x b h
      obtain ⟨a₁, hl, ha₁, -, h₁⟩ := bind_advance ha (by rw [hk]; decide) h
      obtain ⟨y, a₂, ts, hts, hderives, ha₂, hsome, h₂⟩ := (he _).bind_require ha₁ h₁
      obtain ⟨r, a₃, hrk, hr, -, h₃⟩ := bind_expect ha₂ (by decide) h₂
      cases h₃
      exact .inr ⟨hsome, _, (hl.trans hts).trans hr, .group hk hderives hrk⟩
    · exact (he _).matrix a ha
    · rename_i hk
      intro x b h
      obtain ⟨a₁, ht, -, -, h₁⟩ := bind_advance ha (by rw [hk]; decide) h
      cases h₁
      exact .inr ⟨rfl, _, ht, .truth hk⟩
    · rename_i hk
      intro x b h
      obtain ⟨next, c, hnext, h₁⟩ := bind_eq_ok h
      obtain rfl := eq_of_following hnext
      split at h₁
      · exact callOrDefinition_derives (he _) hs ha hk x b h₁
      · obtain ⟨i, d, hi, h₂⟩ := bind_eq_ok h₁
        obtain ⟨t, d', htk, ht, -, h₃⟩ := bind_expect ha (by decide) hi
        cases h₃
        cases h₂
        exact .inr ⟨rfl, _, ht, .name htk⟩
    · intro x b h
      cases h
      exact .inl ⟨rfl, rfl⟩

/-! ## Statements -/

theorem assignment_derives (he : ReadsAs (.expr .ignored) expr) (ha : a.Tidy)
    (h : assignment expr a = .ok (x, b)) :
    ∃ target sign ts, a.Takes (target :: sign :: ts) b ∧ target.kind = .identifier ∧
      (assignment? sign.kind).isSome = true ∧ Derives (.expr .ignored) ts := by
  obtain ⟨i, c, hi, h₁⟩ := bind_eq_ok h
  obtain ⟨target, d, htk, ht, hc, h₂⟩ := bind_expect ha (by decide) hi
  cases h₂
  rw [bind_run_ok (current_run c)] at h₁
  rcases hassign : assignment? c.current.kind with _ | _ | op <;> rw [hassign] at h₁
  rotate_left 2
  · -- An operator is applied first.
    have hk : c.current.kind ≠ .eof := by
      intro hk
      rw [hk] at hassign
      cases hassign
    obtain ⟨d, hs, hd, -, h₂⟩ := bind_advance hc hk h₁
    obtain ⟨y, e, ts, hts, hderives, -, -, h₃⟩ := he.bind_require hd h₂
    cases h₃
    exact ⟨target, c.current, ts, ht.trans (hs.trans hts), htk, by rw [hassign]; rfl, hderives⟩
  -- Otherwise the plain sign has to stand here.
  all_goals
    obtain ⟨sign, d, hsk, hs, hd, h₂⟩ := bind_expect hc (by decide) h₁
    obtain ⟨y, e, ts, hts, hderives, -, -, h₃⟩ := he.bind_require hd h₂
    cases h₃
    exact ⟨target, sign, ts, ht.trans (hs.trans hts), htk, by rw [hsk]; rfl, hderives⟩

theorem assignments_derives (he : ReadsAs (.expr .ignored) expr) (n : Nat) :
    TakesAs .assignments (assignments expr n) := by
  induction n with
  | zero =>
    intro a _ xs b h
    cases h
  | succ n ih =>
    intro a ha xs b h
    obtain ⟨x, c, hx, h₁⟩ := bind_eq_ok h
    obtain ⟨target, sign, ts, hts, htk, hsk, hderives⟩ := assignment_derives he ha hx
    rcases bind_accept (ha.takes hts) (by decide) h₁ with ⟨hcomma, d, htakes, hd, -, h₂⟩ | ⟨-, h₂⟩
    · obtain ⟨ys, e, hys, h₃⟩ := bind_eq_ok h₂
      cases h₃
      obtain ⟨us, hus, hrest⟩ := ih d hd ys b hys
      exact ⟨_, hts.trans (htakes.trans hus), .moreAssignments htk hsk hderives hcomma hrest⟩
    · cases h₂
      exact ⟨_, hts, .assignment htk hsk hderives⟩

theorem statement_derives (he : ReadsAs (.expr .ignored) expr) :
    TakesAs .statement (statement expr) := by
  intro a ha xs b h
  have hline : ∀ assigns : Bool, (if assigns = true then bounded (assignments expr)
      else do
        let node ← expr
        return if node.isEmpty then [] else [node] : Parser (List Node)) a = .ok (xs, b) →
      ∃ ts, a.Takes ts b ∧ Derives .statement ts := by
    intro assigns hrun
    cases assigns with
    | true =>
      obtain ⟨ts, hts, hderives⟩ := assignments_derives he _ a ha xs b hrun
      exact ⟨ts, hts, .assigns hderives⟩
    | false =>
      obtain ⟨x, c, hx, hresult⟩ := bind_eq_ok hrun
      cases hresult
      rcases he a ha x b hx with ⟨-, rfl⟩ | ⟨-, ts, hts, hderives⟩
      · exact ⟨[], .refl b, .nothing⟩
      · exact ⟨ts, hts, .expression hderives⟩
  rw [statement, bind_run_ok (at?_run _ a)] at h
  split at h
  · obtain ⟨next, c, hnext, h₁⟩ := bind_eq_ok h
    obtain rfl := eq_of_following hnext
    exact hline _ h₁
  · exact hline false h

theorem skipNewlines_takes (n : Nat) {u : Unit} (ha : a.Tidy) (h : skipNewlines n a = .ok (u, b)) :
    b.current.kind ≠ .newline ∧ ∃ ts, a.Takes ts b ∧ ∀ t ∈ ts, t.kind = .newline := by
  induction n generalizing a with
  | zero => cases h
  | succ n ih =>
    rcases bind_accept ha (by decide) h with ⟨hk, c, htakes, hc, -, h₁⟩ | ⟨hk, h₁⟩
    · obtain ⟨hstop, ts, hts, hkinds⟩ := ih hc h₁
      exact ⟨hstop, _, htakes.trans hts, List.forall_mem_cons.2 ⟨hk, hkinds⟩⟩
    · cases h₁
      exact ⟨hk, [], .refl _, by simp⟩

/-- Behind a statement come the other lines. -/
theorem moreStatements_derives (he : ReadsAs (.expr .ignored) expr) (n : Nat) {xs : List Node}
    (ha : a.Tidy) (h : moreStatements expr n a = .ok (xs, b)) :
    ∃ ts, a.Takes ts b ∧ ∀ us, Derives .statement us → Derives .statements (us ++ ts) := by
  induction n generalizing a xs with
  | zero => cases h
  | succ n ih =>
    by_cases hk : a.current.kind = .newline
    · rw [moreStatements_run_newline expr hk] at h
      obtain ⟨u, c, hskip, h₁⟩ := bind_eq_ok h
      rw [bounded_run] at hskip
      obtain ⟨hstop, newlines, htakes, hkinds⟩ := skipNewlines_takes _ ha hskip
      have hc := ha.takes htakes
      obtain ⟨first, d, hfirst, h₂⟩ := bind_eq_ok h₁
      obtain ⟨ts, hts, hderives⟩ := statement_derives he c hc first d hfirst
      obtain ⟨rest, e, hrest, h₃⟩ := bind_eq_ok h₂
      cases h₃
      obtain ⟨more, hmore, hlines⟩ := ih (hc.takes hts) hrest
      refine ⟨_, htakes.trans (hts.trans hmore), fun us hus => ?_⟩
      cases newlines with
      | nil =>
        cases htakes
        exact absurd hk hstop
      | cons l newlines =>
        obtain ⟨hl, hkinds⟩ := List.forall_mem_cons.1 hkinds
        exact .line hus hl (Derives.blankLines hkinds (hlines ts hderives))
    · rw [moreStatements_run_no hk] at h
      cases h
      refine ⟨[], .refl _, fun us hus => ?_⟩
      rw [List.append_nil]
      exact .lastLine hus

theorem statementsWith_derives (he : ReadsAs (.expr .ignored) expr) :
    TakesAs .statements (statementsWith expr) := by
  intro a ha xs b h
  obtain ⟨u, c, hskip, h₁⟩ := bind_eq_ok h
  rw [bounded_run] at hskip
  obtain ⟨-, newlines, htakes, hkinds⟩ := skipNewlines_takes _ ha hskip
  have hc := ha.takes htakes
  obtain ⟨first, d, hfirst, h₂⟩ := bind_eq_ok h₁
  obtain ⟨ts, hts, hderives⟩ := statement_derives he c hc first d hfirst
  obtain ⟨rest, e, hrest, h₃⟩ := bind_eq_ok h₂
  cases h₃
  rw [bounded_run] at hrest
  obtain ⟨more, hmore, hlines⟩ := moreStatements_derives he _ (hc.takes hts) hrest
  exact ⟨_, htakes.trans (hts.trans hmore), Derives.blankLines hkinds (hlines ts hderives)⟩

/-! ## Programs -/

/-- However deep the nesting, the parsers take what the grammar derives. -/
theorem grammar_derives (n : Nat) :
    (∀ s, ReadsAs (.expr s) (Parser.expr n s)) ∧ ReadsAs .factor (Parser.factor n) ∧
      TakesAs .statements (Parser.statements n) := by
  induction n with
  | zero =>
    refine ⟨fun s a _ x b h => ?_, fun a _ x b h => ?_, fun a _ x b h => ?_⟩ <;> cases h
  | succ n ih =>
    obtain ⟨he, hf, hs⟩ := ih
    obtain ⟨-, hm, -⟩ := Moves.grammar n
    exact ⟨fun s => hf.ternaryWith hm (he s), hf.factorWith he hs, statementsWith_derives (he _)⟩

/-- A program goes up to the end of input. -/
theorem program_derives (ha : a.Tidy) (h : program a = .ok (x, b)) :
    b.current.kind = .eof ∧ ∃ ts, a.Takes ts b ∧ Derives .statements ts := by
  obtain ⟨first, a₁, hfirst, h₁⟩ := bind_eq_ok h
  cases hfirst
  obtain ⟨_, a₂, hget, h₂⟩ := bind_eq_ok h₁
  cases hget
  obtain ⟨xs, c, hxs, h₃⟩ := bind_eq_ok h₂
  obtain ⟨ts, hts, hderives⟩ := (grammar_derives _).2.2 _ ha xs c hxs
  rw [bind_run_ok (current_run c)] at h₃
  split at h₃
  · rename_i hk
    cases h₃
    exact ⟨hk, ts, hts, hderives⟩
  · cases h₃

end Parser

namespace Node

/-- **Programs are derivable, up to commas at the end of argument lists.**  The tokens of a text that is
a program are all that stands in it, with the end of input behind them, and the grammar derives them if
and only if no comma stands right before a closing parenthesis. -/
theorem derives_of_parse {file source : String} {program : Node}
    (h : parse file source = .ok program) :
    ∃ ts, (TokenStream.ofChars file source.toList).complete = .ok ts ∧
      (Derives .program ts ↔ ts.IsChain NoTrailingComma) := by
  obtain ⟨ts, last, -, -, hstream, -⟩ := lines_of_parse h
  obtain ⟨hkinds, hlast⟩ := TokenStream.kind_of_ofChars hstream
  refine ⟨ts ++ [last], ?_, fun hderives => hderives.tidy.chain, fun hchain => ?_⟩
  · rw [hstream]
    rfl
  · obtain ⟨a, b, hstart, hrun⟩ := parse_eq_ok_iff.1 h
    rw [hstream, Ahead.start_eq_before] at hstart
    cases hstart
    have htidy := Ahead.tidy_before hkinds hlast (List.isChain_append.1 hchain).1
    obtain ⟨hend, us, hus, hderives⟩ := Parser.program_derives htidy hrun
    obtain ⟨vs, rfl, rfl⟩ := hus.before hkinds hlast
    cases vs with
    | nil =>
      rw [List.append_nil]
      exact .program hderives hlast
    | cons t vs =>
      -- The parser has come to the end of input, so nothing is left.
      exact absurd hend (hkinds t (by simp))

/-- A call with a comma behind its argument is a program, and is not derivable. -/
theorem derives_of_parse_trailing_comma :
    ∃ program ts, parse "<input>" "f(true,)" = .ok program ∧
      (TokenStream.ofChars "<input>" "f(true,)".toList).complete = .ok ts ∧
      ts.map Token.kind = [.identifier, .lparen, .reservedValue, .comma, .rparen, .eof] ∧
      ¬ Derives .program ts := by
  have hok : (parse "<input>" "f(true,)").toBool = true := by decide +kernel
  have hlex : (TokenStream.ofChars "<input>" "f(true,)".toList).complete.toOption.map
      (fun ts => ts.map Token.kind) =
        some [.identifier, .lparen, .reservedValue, .comma, .rparen, .eof] := by
    decide +kernel
  obtain ⟨program, hparse⟩ := exists_parse_of_toBool hok
  obtain ⟨ts, hts, hiff⟩ := derives_of_parse hparse
  rw [hts] at hlex
  have hkinds : ts.map Token.kind =
      [.identifier, .lparen, .reservedValue, .comma, .rparen, .eof] := Option.some.inj hlex
  refine ⟨program, ts, hparse, hts, hkinds, fun hderives => ?_⟩
  have hchain : (ts.map Token.kind).IsChain fun k l => ¬ (k = .comma ∧ l = .rparen) :=
    (List.isChain_map Token.kind).2 (hiff.1 hderives)
  rw [hkinds] at hchain
  simp [List.isChain_cons_cons] at hchain

end Node

end Reckon
