import Mathlib.Data.List.OfFn
import Reckon.Proofs.Lexing.Lexeme
import Reckon.Proofs.Printing.Chunk

/-!
# Printed texts are legible

A row of chunks is clear before a text if each of its lexemes is the token that is read where it
stands (`Clear`).  That depends on the character behind the lexeme only, so it is shown for rows that
something breaks off (`Legible`) and put together from what starts with a break (`Parts`).

Every printed phrase is legible, with or without parentheses that are not needed.
-/

namespace Reckon

open Token (Gentle Breaks)

namespace Chunk

theorem text_append (ps qs : List Chunk) : text (ps ++ qs) = text ps ++ text qs :=
  List.flatMap_append

/-- Before `rest`, each lexeme is the token that is read where it stands. -/
def Clear : List Chunk → List Char → Prop
  | [], _ => True
  | blank :: ps, rest => Clear ps rest
  | lexeme k cs :: ps, rest =>
    Token.scan? (cs ++ (text ps ++ rest)) = some (cs, k) ∧ Clear ps rest

theorem clear_append {ps qs : List Chunk} {rest : List Char} (hp : Clear ps (text qs ++ rest))
    (hq : Clear qs rest) : Clear (ps ++ qs) rest := by
  induction ps with
  | nil => exact hq
  | cons c ps ih =>
    cases c with
    | blank => exact ih hp
    | lexeme k cs =>
      refine ⟨?_, ih hp.2⟩
      show Token.scan? (cs ++ (text (ps ++ qs) ++ rest)) = some (cs, k)
      rw [text_append, List.append_assoc]
      exact hp.1

/-- Clear wherever a break follows, and then gentle to a sign before it. -/
structure Legible (ps : List Chunk) : Prop where
  clear : ∀ rest, Breaks rest → Clear ps rest
  gentle : ∀ rest, Breaks rest → Gentle (text ps ++ rest)

/-- Clear wherever a break follows, and then itself a break. -/
structure Parts (ps : List Chunk) : Prop where
  clear : ∀ rest, Breaks rest → Clear ps rest
  breaks : ∀ rest, Breaks rest → Breaks (text ps ++ rest)

/-! ## Signs -/

/-- The signs that no sign before them goes on with. -/
def gentleSigns : List Token.Kind :=
  [.plus, .minus, .bang, .lparen, .lbracket, .lbrace, .rbrace]

/-- The signs that break off what stands before them. -/
def breakingSigns : List Token.Kind :=
  [.lparen, .rparen, .rbracket, .comma, .semicolon, .newline]

theorem breaks_blank (rest : List Char) : Breaks (' ' :: rest) := by
  intro c hc
  cases hc
  decide

theorem gentle_sign {k : Token.Kind} (hk : k ∈ gentleSigns) (rest : List Char) :
    Gentle ((sign k).chars ++ rest) := by
  simp only [gentleSigns, List.mem_cons, List.not_mem_nil, or_false] at hk
  rcases hk with rfl | rfl | rfl | rfl | rfl | rfl | rfl <;>
  · intro c hc
    cases hc
    decide

theorem breaks_sign {k : Token.Kind} (hk : k ∈ breakingSigns) (rest : List Char) :
    Breaks ((sign k).chars ++ rest) := by
  simp only [breakingSigns, List.mem_cons, List.not_mem_nil, or_false] at hk
  rcases hk with rfl | rfl | rfl | rfl | rfl | rfl <;>
  · intro c hc
    cases hc
    decide

theorem sign_mem {k : Token.Kind} (hk : k.sign?.isSome = true) :
    (k.sign?.getD [], k) ∈ Token.Kind.signs := by
  have hall : ∀ k ∈ Token.Kind.all, k.sign?.isSome = true →
      (k.sign?.getD [], k) ∈ Token.Kind.signs := by decide
  exact hall k (Token.Kind.mem_all k) hk

theorem isSome_of_gentleSigns : ∀ k ∈ gentleSigns, k.sign?.isSome = true := by
  decide

theorem isSome_of_breakingSigns : ∀ k ∈ breakingSigns, k.sign?.isSome = true := by
  decide

theorem clear_sign {k : Token.Kind} {ps : List Chunk} {rest : List Char}
    (hk : k.sign?.isSome = true) (hg : Gentle (text ps ++ rest)) (hp : Clear ps rest) :
    Clear (sign k :: ps) rest :=
  ⟨Token.scan?_sign (sign_mem hk) hg, hp⟩

/-! ## Putting rows together -/

section Rows

variable {k : Token.Kind} {ps qs : List Chunk}

theorem Legible.nil : Legible [] :=
  ⟨fun _ _ => trivial, fun _ h => h.gentle⟩

theorem Legible.append (hp : Legible ps) (hq : Parts qs) : Legible (ps ++ qs) := by
  refine ⟨fun rest hr => clear_append (hp.clear _ (hq.breaks rest hr)) (hq.clear rest hr),
    fun rest hr => ?_⟩
  rw [text_append, List.append_assoc]
  exact hp.gentle _ (hq.breaks rest hr)

theorem Legible.sign (hk : k ∈ gentleSigns) (hp : Legible ps) : Legible (sign k :: ps) := by
  refine ⟨fun rest hr => clear_sign (isSome_of_gentleSigns k hk) (hp.gentle rest hr)
    (hp.clear rest hr), fun rest hr => ?_⟩
  show Gentle (((Chunk.sign k).chars ++ text ps) ++ rest)
  rw [List.append_assoc]
  exact gentle_sign hk _

theorem Parts.sign (hk : k ∈ breakingSigns) (hp : Legible ps) : Parts (sign k :: ps) := by
  refine ⟨fun rest hr => clear_sign (isSome_of_breakingSigns k hk) (hp.gentle rest hr)
    (hp.clear rest hr), fun rest hr => ?_⟩
  show Breaks (((Chunk.sign k).chars ++ text ps) ++ rest)
  rw [List.append_assoc]
  exact breaks_sign hk _

theorem Parts.blank (hp : ∀ rest, Breaks rest → Clear ps rest) : Parts (blank :: ps) :=
  ⟨hp, fun rest _ => breaks_blank (text ps ++ rest)⟩

theorem Parts.legible (hp : Parts ps) : Legible ps :=
  ⟨hp.clear, fun rest hr => (hp.breaks rest hr).gentle⟩

theorem Parts.spaced (hk : k.sign?.isSome = true) (hp : Legible ps) : Parts (spaced k ++ ps) :=
  .blank fun rest hr => clear_sign hk (breaks_blank _).gentle (hp.clear rest hr)

theorem Parts.separator (hk : k ∈ breakingSigns) (hp : Legible ps) :
    Parts (Chunk.sign k :: Chunk.blank :: ps) :=
  .sign hk (Parts.blank hp.clear).legible

theorem Legible.parens (hp : Legible ps) : Legible (parens ps) :=
  .sign (by decide) (hp.append (.sign (by decide) .nil))

theorem listed_cons_cons (k : Token.Kind) (p q : List Chunk) (items : List (List Chunk)) :
    listed k (p :: q :: items) = p ++ Chunk.sign k :: Chunk.blank :: listed k (q :: items) := by
  simp [listed, List.intercalate]

theorem listed_singleton (k : Token.Kind) (p : List Chunk) : listed k [p] = p := by
  simp [listed, List.intercalate]

theorem Legible.listed (hk : k ∈ breakingSigns) {items : List (List Chunk)}
    (h : ∀ p ∈ items, Legible p) : Legible (listed k items) := by
  induction items with
  | nil => exact .nil
  | cons p items ih =>
    have hp : Legible p := h p List.mem_cons_self
    cases items with
    | nil => rwa [listed_singleton]
    | cons q items =>
      rw [listed_cons_cons]
      exact hp.append (.separator hk (ih fun r hr => h r (List.mem_cons_of_mem _ hr)))

/-- Lines, each with a newline behind it, before something legible. -/
theorem Legible.lines {lines : List (List Chunk)} (h : ∀ p ∈ lines, Legible p) (hq : Legible qs) :
    Legible ((lines.map (· ++ [Chunk.sign .newline])).flatten ++ qs) := by
  induction lines with
  | nil => exact hq
  | cons p lines ih =>
    have hl := ih fun r hr => h r (List.mem_cons_of_mem _ hr)
    rw [List.map_cons, List.flatten_cons, List.append_assoc, List.append_assoc]
    exact (h p List.mem_cons_self).append (.sign (by decide) hl)

end Rows

/-! ## Words and numerals -/

theorem digit_notMem {c : Char} (h : c.isDigit = true) : c ∉ ['=', '&', '|', '>'] := by
  intro hc
  simp only [List.mem_cons, List.not_mem_nil, or_false] at hc
  rcases hc with rfl | rfl | rfl | rfl <;> cases h

theorem nameStart_notMem {c : Char} (h : Text.isNameStart c = true) :
    c ∉ ['=', '&', '|', '>'] := by
  have hnot : ['=', '&', '|', '>'].all (!Text.isNameStart ·) = true := by decide
  intro hc
  have hcn := List.all_eq_true.1 hnot c hc
  rw [h] at hcn
  cases hcn

/-- A word is legible. -/
theorem Legible.word {w : List Char} {k : Token.Kind} (hs : w.head?.any Text.isNameStart = true)
    (hp : ∀ x ∈ w, Text.isNamePart x = true) (hk : Token.wordKind w = k) :
    Legible [lexeme k w] := by
  subst hk
  cases w with
  | nil => cases hs
  | cons c r =>
    refine ⟨fun rest hb => ⟨Token.scan?_word hs (fun x hx => hp x (List.mem_cons_of_mem c hx))
      fun x hx => (hb x hx).1, trivial⟩, ?_⟩
    intro rest hb x hx
    cases hx
    exact nameStart_notMem hs

theorem Legible.ofName (x : Name) : Legible [ofName x] := by
  refine .word x.starts (fun c hc => ?_) x.wordKind
  rcases List.mem_cons.1 hc with rfl | hc
  · exact Text.isNamePart_of_isNameStart x.starts
  · exact x.goesOn c hc

theorem gentle_numeral (n : Numeral) (rest : List Char) : Gentle (n.chars ++ rest) := by
  intro c hc
  cases hw : n.whole with
  | nil => exact absurd hw n.whole_ne_nil
  | cons d w =>
    have hd : d.isDigit = true := n.whole_digits d (by rw [hw]; exact List.mem_cons_self)
    have hch : (n.chars ++ rest).head? = some d := by
      unfold Numeral.chars
      rw [hw]
      rfl
    rw [hch] at hc
    cases hc
    exact digit_notMem hd

/-- A numeral is legible before a break, and before a unit. -/
theorem Legible.numeral (n : Numeral) {ps : List Chunk} (hp : ∀ rest, Breaks rest → Clear ps rest)
    (hd : ∀ rest, Breaks rest → ∀ c ∈ (text ps ++ rest).head?, c.isDigit = false ∧ c ≠ '.') :
    Legible (lexeme .number n.chars :: ps) := by
  refine ⟨fun rest hr => ⟨Token.scan?_numeral n (hd rest hr), hp rest hr⟩, fun rest _ => ?_⟩
  show Gentle ((n.chars ++ text ps) ++ rest)
  rw [List.append_assoc]
  exact gentle_numeral n _

end Chunk

open Chunk

/-! ## Phrases -/

theorem legible_line {ps : List Chunk} (target : Option Name) (hp : Legible ps) :
    Legible (lineChunks target ps) := by
  cases target with
  | none => exact hp
  | some x => exact (Legible.ofName x).append (.spaced (by decide) hp)

namespace Phrase

variable (extra : Place → Phrase → Bool)

theorem legible_enclose {e : Phrase} {ps : List Chunk} (place : Place) (hp : Legible ps) :
    Legible (enclose extra place e ps) := by
  unfold enclose
  split
  · exact hp
  · exact hp.parens

theorem legible_number (n : Numeral) (unit : Option LengthUnit) :
    Legible ((number n unit).chunks extra) := by
  cases unit with
  | none =>
    refine Legible.numeral n (fun _ _ => trivial) fun rest hr c hc => ?_
    obtain ⟨hpart, hpoint, -⟩ := hr c hc
    refine ⟨?_, hpoint⟩
    cases hd : c.isDigit with
    | false => rfl
    | true => rw [Token.isNamePart_of_isDigit hd] at hpart; cases hpart
  | some u =>
    -- A unit is a word, and no digit or point starts one.
    have hword : Legible [lexeme .identifier u.symbol.toList] := by
      cases u <;> exact .word (by decide) (List.all_eq_true.1 (by decide)) (by decide)
    refine Legible.numeral n hword.clear fun rest _ c hc => ?_
    cases u <;> cases hc <;> decide

theorem legible_boolean (b : Bool) : Legible ((boolean b).chunks extra) := by
  cases b <;> exact .word (by decide) (List.all_eq_true.1 (by decide)) (by decide)

/-- Every phrase is printed legibly. -/
theorem legible (e : Phrase) : Legible (e.chunks extra) := by
  induction e with
  | number n unit => exact legible_number extra n unit
  | boolean b => exact legible_boolean extra b
  | var x => exact .ofName x
  | unary op e ih =>
    have hk : op.kind ∈ gentleSigns := by cases op <;> decide
    exact .sign hk (legible_enclose extra _ ih)
  | binary l op r ihl ihr =>
    have hk : op.kind.sign?.isSome = true := by cases op <;> decide
    rw [chunks, List.append_assoc]
    exact (legible_enclose extra _ ihl).append (.spaced hk (legible_enclose extra _ ihr))
  | ternary c y n ihc ihy ihn =>
    have hyes := legible_enclose extra .branch (e := y) ihy
    have hno := legible_enclose extra .branch (e := n) ihn
    rw [chunks, List.append_assoc, List.append_assoc, List.append_assoc]
    exact (legible_enclose extra _ ihc).append
      (.spaced (by decide) (hyes.append (.spaced (by decide) hno)))
  | matrix height width cells ih =>
    have hrow : ∀ i, Legible (listed .comma (List.ofFn fun j =>
        enclose extra .cell (cells i j) ((cells i j).chunks extra))) := by
      intro i
      refine .listed (by decide) (List.forall_mem_ofFn_iff.2 fun j => ?_)
      exact legible_enclose extra _ (ih i j)
    exact .sign (by decide)
      ((Legible.listed (by decide) (List.forall_mem_ofFn_iff.2 hrow)).append (.sign (by decide) .nil))
  | call f arity args ih =>
    have hargs : Legible (listed .comma (List.ofFn fun i =>
        enclose extra .argument (args i) ((args i).chunks extra))) :=
      .listed (by decide) (List.forall_mem_ofFn_iff.2 fun i => legible_enclose extra _ (ih i))
    exact (Legible.ofName f).append
      (.sign (by decide) (hargs.append (.sign (by decide) .nil)))
  | define f params distinct size targets body ih =>
    have hparams : Legible (listed .comma (params.map fun p => [ofName p])) := by
      refine .listed (by decide) fun ps hps => ?_
      obtain ⟨p, -, rfl⟩ := List.mem_map.1 hps
      exact .ofName p
    -- The lines are legible together with the brace behind them.
    have hlines := Legible.lines (List.forall_mem_ofFn_iff.2 fun i =>
      legible_line (targets i) (legible_enclose extra .line (e := body i) (ih i)))
      (.sign (k := .rbrace) (by decide) .nil)
    rw [List.map_ofFn] at hlines
    have hhead := (Legible.ofName f).append
      (.sign (k := .lparen) (by decide) (hparams.append (.sign (k := .rparen) (by decide) .nil)))
    rw [chunks, List.append_assoc]
    exact hhead.append (.spaced (by decide)
      (.sign (by decide) (Parts.sign (by decide) hlines).legible))

end Phrase

/-- A program is printed clearly. -/
theorem Statement.clear_program (extra : Place → Phrase → Bool) (p : List Statement) :
    Clear (p.flatMap fun s => s.chunks extra ++ [sign .newline]) [] := by
  have hlines : ∀ l ∈ p.map (Statement.chunks extra), Legible l := by
    intro l hl
    obtain ⟨s, -, rfl⟩ := List.mem_map.1 hl
    exact legible_line s.target (Phrase.legible_enclose extra _ (s.value.legible extra))
  have h := (Legible.lines hlines .nil).clear [] (by intro c hc; cases hc)
  rwa [List.append_nil, List.map_map, ← List.flatMap_def] at h

end Reckon
