import Mathlib.Data.List.Nodup
import Reckon.Proofs.Parsing.Moves
import Reckon.Proofs.Parsing.Reading

/-!
# What a parser comes to

A parser of the grammar gives nodes that are read between the position where it starts and the one where it
stops (`Reading`), or nothing and takes no token.  If it fails, the tokens end in this error, or what stands at
some token is refused; and only a bound that is too small is refused as such (`Stops`).  Both are shown at once,
rule by rule (`Parser.Ensures`).  Whatever else holds of the results of parsing is then shown of what is read,
without the parser.

The bounds are those on nesting and on the rounds of loops.  Nesting and rounds take tokens, so a bound is large
enough that exceeds the number of tokens left, or twice this number (`Parser.Room`).
-/

namespace Reckon

/-- Why parsing fails, that began here: the tokens end in the error, or something is refused at the place of a
token.  If bounds are ample, they are not what is refused. -/
inductive Stops (o : Ahead) (ample : Prop) (e : Error) : Prop where
  | ending (h : o.ending = .error e)
  | refused (fault : SyntaxFault) (cause : e.cause = .grammar fault) (place : Known o.Has e.span)
      (bounds : fault = .nesting → ¬ ample)

namespace Ahead

variable {a b : Ahead} {e : Error}

theorem ending_advance (h : a.advance = .ok b) : b.ending = a.ending := by
  rcases advance_cases h with ⟨-, rfl⟩ | ⟨-, t, rest, -, rfl⟩ | ⟨-, -, t, -, rfl⟩ <;> rfl

theorem Reaches.ending_eq (h : a.Reaches b) : b.ending = a.ending := by
  induction h with
  | refl => rfl
  | tail _ hadvance ih => rw [ending_advance hadvance, ih]

/-- Passing a token fails only where the tokens end. -/
theorem ending_of_advance (h : a.advance = .error e) : a.ending = .error e := by
  unfold Ahead.advance at h
  split at h
  · cases h
  · split at h
    · cases h
    · cases hend : a.ending with
      | ok t =>
        rw [hend] at h
        cases h
      | error e' =>
        rw [hend] at h
        cases h
        rfl

theorem ending_of_following (h : a.following = .error e) : a.ending = .error e := by
  unfold following at h
  split at h
  · cases h
  · exact h

end Ahead

namespace Parser

variable {α β : Type} {Q : α → Ahead → Prop} {T : β → Ahead → Prop} {o a b : Ahead} {ample : Prop}
  {w k n : Nat}

/-- Nothing, and no token taken for it, or a node that is read. -/
def MayRead (a : Ahead) (x : Node) (b : Ahead) : Prop :=
  (x.isEmpty = true ∧ b = a) ∨ Reading (.nodes false) a [x] b

theorem MayRead.reading {x : Node} (h : MayRead a x b) (hx : x.isEmpty = false) :
    Reading (.nodes false) a [x] b := by
  refine h.resolve_left fun hnone => ?_
  rw [hx] at hnone
  cases hnone.1

/-- From this position, what the parser gives and where it stops then are in this relation.  If it fails, that
is for one of the reasons that parsing from the origin `o` has to fail. -/
def Ensures (o : Ahead) (ample : Prop) (a : Ahead) (Q : α → Ahead → Prop) (p : Parser α) : Prop :=
  o.Reaches a → (ample → a.Closed) →
    (∀ x b, p a = .ok (x, b) → a.Reaches b ∧ Q x b) ∧ ∀ e, p a = .error e → Stops o ample e

/-- If the bounds are to be ample, this one is at this position: there are fewer tokens left. -/
def Room (ample : Prop) (a : Ahead) (w k n : Nat) : Prop :=
  ample → a.Closed ∧ w * a.left + k ≤ n

theorem Room.reach (h : Room ample a w k n) (hr : a.Reaches b) : Room ample b w k n := by
  intro hample
  obtain ⟨hc, hle⟩ := h hample
  have hmul := Nat.mul_le_mul_left w (hr.left_le hc)
  exact ⟨hr.closed hc, by omega⟩

/-- Behind a token there is room for another round. -/
theorem Room.past (h : Room ample a w k n) (hp : a.Past b) : Room ample b w (k + w) n := by
  intro hample
  obtain ⟨hc, hle⟩ := h hample
  have hmul : w * b.left + w ≤ w * a.left := Nat.mul_le_mul_left w (hp.left_lt hc)
  exact ⟨hp.reaches.closed hc, by omega⟩

theorem Room.pred (h : Room ample a w (k + 1) (n + 1)) : Room ample a w k n :=
  fun hample => ⟨(h hample).1, Nat.le_of_succ_le_succ (h hample).2⟩

theorem Room.weaken (h : Room ample a w (k + 1) n) : Room ample a w k n :=
  fun hample => ⟨(h hample).1, Nat.le_of_succ_le (h hample).2⟩

theorem Room.not_ample (h : Room ample a w (k + 1) 0) : ¬ ample :=
  fun hample => absurd (h hample).2 (by omega)

namespace Ensures

/-! ## Single tokens -/

theorem bind {p : Parser α} {f : α → Parser β} (hp : Ensures o ample a Q p)
    (hf : ∀ x b, a.Reaches b → Q x b → Ensures o ample b T (f x)) : Ensures o ample a T (p >>= f) := by
  intro ho hc
  obtain ⟨hok, herror⟩ := hp ho hc
  constructor
  · intro y c h
    obtain ⟨x, b, hx, hy⟩ := bind_eq_ok h
    obtain ⟨hr, hq⟩ := hok x b hx
    obtain ⟨hr', ht⟩ := (hf x b hr hq (ho.trans hr) fun hF => hr.closed (hc hF)).1 y c hy
    exact ⟨hr.trans hr', ht⟩
  · intro e h
    rw [bind_run] at h
    cases hrun : p a with
    | error e' =>
      rw [hrun] at h
      cases h
      exact herror e hrun
    | ok r =>
      rw [hrun] at h
      obtain ⟨hr, hq⟩ := hok r.1 r.2 hrun
      exact (hf r.1 r.2 hr hq (ho.trans hr) fun hF => hr.closed (hc hF)).2 e h

theorem mono {Q' : α → Ahead → Prop} {p : Parser α} (hp : Ensures o ample a Q p)
    (h : ∀ x b, Q x b → Q' x b) : Ensures o ample a Q' p :=
  fun ho hc => ⟨fun x b hx => ⟨((hp ho hc).1 x b hx).1, h x b ((hp ho hc).1 x b hx).2⟩, (hp ho hc).2⟩

theorem pure {x : α} (h : Q x a) : Ensures o ample a Q (Pure.pure x : Parser α) := by
  refine fun _ _ => ⟨fun y b hy => ?_, fun e he => by cases he⟩
  cases hy
  exact ⟨.refl a, h⟩

theorem ite {c : Prop} [Decidable c] {p q : Parser α} (hp : c → Ensures o ample a Q p)
    (hq : ¬ c → Ensures o ample a Q q) : Ensures o ample a Q (if c then p else q) := by
  split
  · exact hp ‹_›
  · exact hq ‹_›

theorem current {f : Token → Parser β} (h : Ensures o ample a T (f a.current)) :
    Ensures o ample a T (current >>= f) :=
  h

theorem get {f : Ahead → Parser β} (h : Ensures o ample a T (f a)) :
    Ensures o ample a T (MonadState.get >>= f) :=
  h

theorem branch {k : Token.Kind} {p q : Parser α} (hp : a.current.kind = k → Ensures o ample a Q p)
    (hq : a.current.kind ≠ k → Ensures o ample a Q q) :
    Ensures o ample a Q (at? k >>= fun c => if c = true then p else q) :=
  ite (fun hk => hp (beq_iff_eq.1 hk)) fun hk => hq (mt beq_iff_eq.2 hk)

/-- A step that fails only with the error that the tokens end in. -/
theorem of_ending {p : Parser α} {x : Except Error (α × Ahead)} (hrun : p a = x)
    (hok : ∀ y b, x = .ok (y, b) → a.Reaches b ∧ Q y b)
    (herror : ∀ e, x = .error e → a.ending = .error e) : Ensures o ample a Q p := by
  intro ho _
  rw [hrun]
  exact ⟨hok, fun e he => .ending (ho.ending_eq ▸ herror e he)⟩

theorem following {f : Token → Parser β} (h : ∀ t, Ensures o ample a T (f t)) :
    Ensures o ample a T (following >>= f) := by
  refine bind (Q := fun _ b => b = a) (of_ending (following_run a) (fun t b ht => ?_) fun e he => ?_)
    fun t b _ hb => hb ▸ h t
  · cases hf : a.following with
    | error e =>
      rw [hf] at ht
      cases ht
    | ok u =>
      rw [hf] at ht
      cases ht
      exact ⟨.refl a, rfl⟩
  · cases hf : a.following with
    | ok u =>
      rw [hf] at he
      cases he
    | error e' =>
      rw [hf] at he
      cases he
      exact Ahead.ending_of_following hf

theorem advance : Ensures o ample a (fun t b => t = a.current ∧ a.advance = .ok b) advance := by
  refine of_ending (advance_run a) (fun t b ht => ?_) fun e he => ?_
  · cases ha : a.advance with
    | error e =>
      rw [ha] at ht
      cases ht
    | ok c =>
      rw [ha] at ht
      cases ht
      exact ⟨.single ha, rfl, rfl⟩
  · cases ha : a.advance with
    | ok c =>
      rw [ha] at he
      cases he
    | error e' =>
      rw [ha] at he
      cases he
      exact Ahead.ending_of_advance ha

theorem refuse {fault : SyntaxFault} {place : Option Span} (hplace : Known o.Has place)
    (h : fault = .nesting → ¬ ample) : Ensures o ample a Q (refuse fault place : Parser α) := by
  refine fun _ _ => ⟨fun x b hx => ?_, fun e he => ?_⟩
  · cases hx
  · cases he
    exact .refused fault rfl hplace h

theorem refuseHere {fault : Token → SyntaxFault} (h : fault a.current = .nesting → ¬ ample) :
    Ensures o ample a Q (refuseHere fault : Parser α) :=
  current fun ho => refuse ⟨_, rfl, a, ho, rfl⟩ h ho

theorem tooNested (h : ¬ ample) : Ensures o ample a Q (tooNested : Parser α) :=
  refuseHere fun _ => h

theorem bounded {loop : Nat → Parser α} (h : ∀ n, Room ample a 1 1 n → Ensures o ample a Q (loop n)) :
    Ensures o ample a Q (bounded loop) := by
  intro ho hc
  have hsize := a.left_lt_size
  exact h a.size (fun hample => ⟨hc hample, by omega⟩) ho hc

theorem require_any {x : Node} {f : Node → Parser β} (h : x.isEmpty = false → Ensures o ample a T (f x)) :
    Ensures o ample a T (require x >>= f) := by
  cases hempty : x.isEmpty with
  | true =>
    have hrequire : Parser.require x = Parser.refuseHere .expectedExpression := by
      rw [Parser.require, if_pos hempty]
    rw [hrequire]
    exact bind (Q := fun _ _ => False) (refuseHere nofun) fun _ _ _ => False.elim
  | false =>
    intro ho hc
    rw [bind_run_ok (require_run_ok hempty a)]
    exact h hempty ho hc

theorem require {x : Node} {f : Node → Parser β} (hx : MayRead b x a)
    (h : Reading (.nodes false) b [x] a → Ensures o ample a T (f x)) :
    Ensures o ample a T (Parser.require x >>= f) :=
  require_any fun hsome => h (hx.reading hsome)

theorem expect {k : Token.Kind} :
    Ensures o ample a (fun t b => t = a.current ∧ a.Passes k b) (expect k) :=
  branch (fun hk => advance.mono fun _ _ ⟨ht, hb⟩ => ⟨ht, hk, hb⟩) fun _ => refuseHere nofun

theorem accept {k : Token.Kind} (hk : k.Fixed) :
    Ensures o ample a (fun x b => (∀ s, Reading (.nodes s) a [] b) ∧ (x = true → a.Past b) ∧
      (a.current.kind = k → x = true)) (accept k) := by
  refine branch (fun ha => advance.bind fun _ b _ ⟨_, hb⟩ => pure ⟨fun s => ?_, fun _ => ?_, fun _ => rfl⟩)
    fun hno => pure ⟨fun s => .nil a, nofun, fun ha => absurd ha hno⟩
  · exact .sign ⟨ha, hb⟩ hk
  · exact .of_advance (ha ▸ hk.1) hb

end Ensures

/-! ## The rules of the grammar -/

/-- Wherever the parser is run from here on, it reads an operand or nothing. -/
def ReadsFrom (o : Ahead) (ample : Prop) (a : Ahead) (p : Parser Node) : Prop :=
  ∀ b, a.Reaches b → Ensures o ample b (MayRead b) p

/-- The same, once a token has been taken. -/
def ReadsPast (o : Ahead) (ample : Prop) (a : Ahead) (p : Parser Node) : Prop :=
  ∀ b, a.Past b → Ensures o ample b (MayRead b) p

/-- The parser reads statements, once a token has been taken. -/
def LinesPast (o : Ahead) (ample : Prop) (a : Ahead) (p : Parser (List Node)) : Prop :=
  ∀ b, a.Past b → Ensures o ample b (Reading (.nodes true) b) p

theorem ReadsFrom.reach {p : Parser Node} (h : ReadsFrom o ample a p) (hr : a.Reaches b) :
    ReadsFrom o ample b p :=
  fun c hc => h c (hr.trans hc)

theorem ReadsPast.reach {p : Parser Node} (h : ReadsPast o ample a p) (hr : a.Reaches b) :
    ReadsPast o ample b p :=
  fun c hc => h c (hr.past hc)

theorem ReadsPast.past {p : Parser Node} (h : ReadsPast o ample a p) (hp : a.Past b) :
    ReadsFrom o ample b p :=
  fun c hc => h c (hp.reach hc)

namespace Ensures

variable {factor expr element : Parser Node} {statements : Parser (List Node)} {x left : Node}
  {spacing : Spacing} {bound : Nat}

/-- A relation that every operator hands on from the left operand, with any operand read behind it. -/
def HandedOn (L : Node → Ahead → Prop) : Prop :=
  ∀ l r a b op, L l a → l.isEmpty = false → Reading (.nodes false) a [r] b →
    L (.binary l op r (Span.join l.span r.span)) b

theorem handedOn_mayRead (a : Ahead) : HandedOn (MayRead a) := by
  intro l r b c op hl hsome hr
  exact .inr (.binary op ((hl.reading hsome).append hr))

theorem climb_of_handedOn {L : Node → Ahead → Prop} (hL : HandedOn L) (hf : ReadsFrom o ample a factor)
    (hn : Room ample a 1 1 n) (hl : L left a) :
    Ensures o ample a L (climb factor spacing n bound left) := by
  induction n generalizing bound left a L with
  | zero => exact tooNested hn.not_ample
  | succ n ih =>
    refine current ?_
    split
    · exact pure hl
    · rename_i op hop
      have hfixed : a.current.kind.Fixed := by
        unfold operator? at hop
        split at hop
        · exact BinaryOp.fixed_of_ofKind? ‹_›
        · cases hop
      refine require_any fun hsome => advance.bind fun _ b _ ⟨_, hb⟩ => ?_
      have hab : a.Past b := .of_advance hfixed.1 hb
      refine (hf b hab.reaches).bind fun m c hbc hm => ?_
      have hc : Room ample c 1 1 n := ((hn.past hab).pred).reach hbc
      have hfc := hf.reach (hab.reaches.trans hbc)
      refine (ih (handedOn_mayRead b) hfc hc hm).bind fun r d hcd hr => require hr fun hr => ?_
      refine ih hL (hfc.reach hcd) (hc.reach hcd) (hL left r a d op hl hsome ?_)
      exact (Reading.sign ⟨rfl, hb⟩ hfixed).append hr

theorem climb (hf : ReadsFrom o ample a factor) (hn : Room ample a 1 1 n) (hl : MayRead b left a) :
    Ensures o ample a (MayRead b) (Parser.climb factor spacing n bound left) :=
  climb_of_handedOn (handedOn_mayRead b) hf hn hl

theorem binary (hf : ReadsFrom o ample a factor) : Ensures o ample a (MayRead a) (binary factor spacing bound) :=
  (hf a (.refl a)).bind fun _ _ hab hl => bounded fun _ hn => climb (hf.reach hab) hn hl

theorem ternaryWith (hf : ReadsFrom o ample a factor) (he : ReadsPast o ample a expr) :
    Ensures o ample a (MayRead a) (ternaryWith factor expr spacing) := by
  refine (binary hf).bind fun x b hab hx => branch (fun hk => require hx fun hx => ?_) fun _ => pure hx
  refine advance.bind fun _ c _ ⟨_, hc⟩ => ?_
  have hquestion : b.Passes .question c := ⟨hk, hc⟩
  have hac : a.Past c := hab.past (hquestion.past (by decide))
  refine (he c hac).bind fun y d hcd hy => require hy fun hy => ?_
  refine expect.bind fun _ e hde ⟨_, hcolon⟩ => ?_
  refine (he e (hac.reach (hcd.trans hde))).bind fun z f _ hz => require hz fun hz => pure (.inr ?_)
  have hfirst := (hx.append (.sign hquestion (by decide))).append hy
  exact .ternary ((hfirst.append (.sign hcolon (by decide))).append hz)

theorem number (hk : a.current.kind = .number) :
    Ensures o ample a (fun x b => Reading (.nodes false) a [x] b) number := by
  refine advance.bind fun t b _ ⟨ht, hb⟩ => current ?_
  rw [ht]
  have halone : a.current.unit? b.current = none →
      Ensures o ample b (fun x c => Reading (.nodes false) a [x] c) (Pure.pure
        (Node.literal (.number a.current.value none) (some (a.current.span.upTo a.current.span)))) :=
    fun hunit => pure (.number ⟨hk, hb⟩ hunit)
  cases hm : LengthUnit.ofSymbol? b.current.text with
  | none =>
    refine halone ?_
    rw [Token.unit?, hm, ite_self]
  | some m =>
    refine ite (fun hnear => ?_) fun hfar => halone (if_neg hfar)
    have hunit : a.current.unit? b.current = some m := (if_pos hnear).trans hm
    exact advance.bind fun _ c _ ⟨_, hc⟩ => pure (.quantity ⟨hk, hb⟩ hunit ⟨hnear.1, hc⟩)

/-- A name is a node of its own. -/
theorem identifier : Ensures o ample a (fun i b => Reading (.nodes false) a [i.asVar] b) identifier :=
  expect.bind fun _ _ _ ⟨ht, hb⟩ => pure (by rw [ht]; exact .name hb)

theorem arguments (he : ReadsFrom o ample a expr) (hn : Room ample a 1 1 n) :
    Ensures o ample a (Reading (.nodes false) a) (arguments expr n) := by
  induction n generalizing a with
  | zero => exact tooNested hn.not_ample
  | succ n ih =>
    refine branch (fun _ => pure (.nil a)) fun _ => ?_
    refine (he a (.refl a)).bind fun x b hab hx => require hx fun hx => ?_
    refine (accept (by decide)).bind fun more c hbc ⟨hcomma, hpast, _⟩ => ite (fun hmore => ?_) fun _ => ?_
    · have hac : a.Past c := hab.past (hpast hmore)
      refine (ih (he.reach hac.reaches) (hn.past hac).pred).bind fun rest d _ hrest => pure ?_
      exact (hx.append (hcomma false)).append hrest
    · exact pure (hx.append (hcomma false))

/-- A call starts with its name. -/
theorem call (hk : a.current.kind = .identifier) (he : ReadsPast o ample a expr) :
    Ensures o ample a (fun r b => r.1 = a.current.text ∧ Reading (.head r.2.2) a r.2.1 b) (call expr) := by
  refine advance.bind fun t b _ ⟨ht, hb⟩ => expect.bind fun _ c hbc ⟨_, hopens⟩ => ?_
  have hname : a.Passes .identifier b := ⟨hk, hb⟩
  have hac : a.Past c := (hname.past (by decide)).reach hbc
  refine (bounded fun n hn => arguments (he.past hac) hn).bind fun args d _ hargs => ?_
  refine expect.bind fun u e _ ⟨hu, hcloses⟩ => pure ?_
  rw [ht, hu]
  exact ⟨rfl, .head hname hopens hargs hcloses⟩

/-- The parameters are what the arguments are read as, under different names. -/
theorem parameters {function : String} {span : Option Span} {params : List Identifier} {args : List Node}
    (hargs : ∀ x ∈ args, Known o.Has x.span) (hdistinct : (params.map Identifier.name).Nodup) :
    Ensures o ample a (fun ps b => b = a ∧
        ps.map Identifier.asVar = params.map Identifier.asVar ++ args ∧ (ps.map Identifier.name).Nodup)
      (parameters function span params args) := by
  induction args generalizing params with
  | nil => exact pure ⟨rfl, (List.append_nil _).symm, hdistinct⟩
  | cons arg rest ih =>
    obtain ⟨harg, hrest⟩ := List.forall_mem_cons.1 hargs
    have hplace : Known o.Has (arg.span.orElse fun _ => span) := by
      obtain ⟨s, hs, hstart⟩ := harg
      rw [hs]
      exact ⟨s, rfl, hstart⟩
    unfold Parser.parameters
    dsimp only
    split
    · exact refuse hplace nofun
    · rename_i p hp
      refine ite (fun _ => refuse hplace nofun) fun hnew => ?_
      have hasVar : arg = p.asVar := by
        cases arg with
        | var x s =>
          cases hp
          rfl
        | _ => cases hp
      have hmore : ((params ++ [p]).map Identifier.name).Nodup := by
        rw [List.map_append, List.nodup_append]
        refine ⟨hdistinct, List.nodup_singleton _, ?_⟩
        rintro x hx y hy rfl
        obtain ⟨q, hq, rfl⟩ := List.mem_map.1 hx
        exact hnew (List.any_eq_true.2 ⟨q, hq, by simpa using hy⟩)
      refine (ih hrest hmore).mono fun ps b ⟨hb, hps, hnodup⟩ => ⟨hb, ?_, hnodup⟩
      rw [hps, hasVar, List.map_append, List.append_assoc]
      rfl

theorem body (he : ReadsFrom o ample a expr) (hs : LinesPast o ample a statements) :
    Ensures o ample a (fun r b => Reading .body a [.block r.1 r.2] b) (body expr statements) := by
  refine branch (fun hk => ?_) fun _ =>
    (he a (.refl a)).bind fun x b _ hx => require hx fun hx => pure (.value hx)
  refine advance.bind fun t b _ ⟨ht, hb⟩ => ?_
  have hopens : a.Passes .lbrace b := ⟨hk, hb⟩
  refine (hs b (hopens.past (by decide))).bind fun xs c _ hxs => expect.bind fun u d _ ⟨hu, hcloses⟩ => pure ?_
  rw [ht, hu]
  exact .braces hopens hxs hcloses

theorem callOrDefinition (hk : a.current.kind = .identifier) (he : ReadsPast o ample a expr)
    (hs : ∀ b, a.Past b → LinesPast o ample b statements) :
    Ensures o ample a (fun x b => Reading (.nodes false) a [x] b) (callOrDefinition expr statements) := by
  intro ho
  refine ((call hk he).bind fun r b hab ⟨hname, hhead⟩ => current (ite (fun hsign => ?_) fun _ => ?_)) ho
  · have hfixed : b.current.kind.Fixed := by
      rcases hsign with hkind | hkind <;> rw [hkind] <;> decide
    refine advance.bind fun _ c _ ⟨_, hc⟩ => ?_
    have hac : a.Past c := hab.past (.of_advance hfixed.1 hc)
    have hargs : ∀ x ∈ r.2.1, Known o.Has x.span := fun x hx => (hhead.starts x hx).reach ho
    have hnone : (([] : List Identifier).map Identifier.name).Nodup := List.nodup_nil
    refine (parameters hargs hnone).bind fun ps d _ ⟨hd, hps, hdistinct⟩ => ?_
    subst hd
    rw [List.map_nil, List.nil_append] at hps
    refine (body (he.past hac) (hs _ hac)).bind fun q e _ hq => pure ?_
    rw [hname]
    exact .define (hps ▸ hhead) hdistinct ⟨rfl, hc⟩ hfixed hq
  · rw [hname]
    exact pure (.call hhead)

theorem matrixRow (he : ReadsFrom o ample a element) (hn : Room ample a 1 1 n) :
    Ensures o ample a (fun row b => row ≠ [] ∧ Reading (.nodes false) a row b) (matrixRow element n) := by
  induction n generalizing a with
  | zero => exact tooNested hn.not_ample
  | succ n ih =>
    refine (he a (.refl a)).bind fun x b hab hx => ite (fun _ => refuseHere nofun) fun hsome => ?_
    have hx : Reading (.nodes false) a [x] b := hx.reading (Bool.eq_false_iff.2 hsome)
    refine current (ite (fun _ => pure ⟨List.cons_ne_nil x [], hx⟩) fun _ => ?_)
    refine (accept (by decide)).bind fun _ c hbc ⟨hcomma, _⟩ => ?_
    have hac : a.Past c := hx.past_singleton.reach hbc
    refine (ih (he.reach hac.reaches) (hn.past hac).pred).bind fun rest d _ ⟨_, hrest⟩ => pure ?_
    exact ⟨List.cons_ne_nil x rest, (hx.append (hcomma false)).append hrest⟩

theorem matrixRows (he : ReadsFrom o ample a element) (hn : Room ample a 1 1 n) :
    Ensures o ample a (fun rows b => (∀ row ∈ rows, row ≠ []) ∧ Reading (.nodes false) a rows.flatten b)
      (matrixRows element n) := by
  induction n generalizing a with
  | zero => exact tooNested hn.not_ample
  | succ n ih =>
    refine branch (fun _ => pure ⟨nofun, .nil a⟩) fun _ => ?_
    refine (bounded fun n hn => matrixRow he hn).bind fun row b hab ⟨hne, hrow⟩ => ?_
    refine (accept (by decide)).bind fun _ c hbc ⟨hsemicolon, _⟩ => ?_
    have hac : a.Past c := (hrow.past fun _ _ => hne).reach hbc
    refine (ih (he.reach hac.reaches) (hn.past hac).pred).bind fun rest d _ ⟨hall, hrest⟩ => pure ?_
    refine ⟨List.forall_mem_cons.2 ⟨hne, hall⟩, ?_⟩
    have hread := (hrow.append (hsemicolon false)).append hrest
    rwa [List.append_nil] at hread

theorem length_of_unevenRow? {width index : Nat} {rows : List (List Node)}
    (h : unevenRow? width index rows = none) : ∀ row ∈ rows, row.length = width := by
  induction rows generalizing index with
  | nil => simp
  | cons row rest ih =>
    rw [unevenRow?] at h
    split at h
    · rename_i hrow
      exact List.forall_mem_cons.2 ⟨hrow, ih h⟩
    · cases h

theorem matrix (he : ReadsPast o ample a element) :
    Ensures o ample a (fun x b => Reading (.nodes false) a [x] b) (matrix element) := by
  intro ho
  refine (expect.bind fun t b _ ⟨ht, hopens⟩ => ?_) ho
  have hab : a.Past b := hopens.past (by decide)
  refine (bounded fun n hn => matrixRows (he.past hab) hn).bind fun rows c _ ⟨hne, hrows⟩ => ?_
  refine expect.bind fun u d _ ⟨hu, hcloses⟩ => ?_
  have hplace : Known o.Has (some (t.span.upTo u.span)) := ⟨_, rfl, a, ho, by rw [ht]; rfl⟩
  rw [ht, hu] at hplace ⊢
  cases rows with
  | nil => exact refuse hplace nofun
  | cons row rest =>
    dsimp only
    split
    · exact refuse hplace nofun
    · rename_i heven
      have hlength : ∀ r ∈ row :: rest, r.length = row.length :=
        List.forall_mem_cons.2 ⟨rfl, length_of_unevenRow? heven⟩
      have hwide : 0 < row.length := List.length_pos_iff.2 (hne row List.mem_cons_self)
      exact pure (.matrix hopens hrows hcloses (List.cons_ne_nil row rest) hwide hlength)

theorem factorWith {expr : Spacing → Parser Node} (hf : ReadsPast o ample a factor)
    (he : ∀ s, ReadsPast o ample a (expr s)) (hs : ∀ b, a.Past b → LinesPast o ample b statements) :
    Ensures o ample a (MayRead a) (factorWith factor expr statements) := by
  have hoperand : ∀ {p : Parser Node}, Ensures o ample a (fun x b => Reading (.nodes false) a [x] b) p →
      Ensures o ample a (MayRead a) p := fun hp => hp.mono fun _ _ => .inr
  refine current ?_
  split
  · rename_i op hop
    refine advance.bind fun _ b _ ⟨_, hb⟩ => ?_
    have hab : a.Past b := .of_advance (UnaryOp.fixed_of_ofKind? hop).1 hb
    exact (hf b hab).bind fun x c _ hx => require hx fun hx => pure (.inr (.unary hop hb hx))
  · split
    · rename_i hk
      exact hoperand (number hk)
    · rename_i hk
      refine advance.bind fun _ b _ ⟨_, hb⟩ => ?_
      have hopens : a.Passes .lparen b := ⟨hk, hb⟩
      refine (he _ b (hopens.past (by decide))).bind fun x c _ hx => require hx fun hx => ?_
      -- Parentheses are read over.
      refine expect.bind fun _ d _ ⟨_, hcloses⟩ => pure (.inr ?_)
      exact ((Reading.sign hopens (by decide)).append hx).append (.sign hcloses (by decide))
    · exact hoperand (matrix (he _))
    · rename_i hk
      exact advance.bind fun _ b _ ⟨_, hb⟩ => pure (.inr (.truth ⟨hk, hb⟩))
    · rename_i hk
      refine following fun _ => ite (fun _ => hoperand (callOrDefinition hk (he _) hs)) fun _ => ?_
      exact identifier.bind fun i b _ hi => pure (.inr hi)
    · exact pure (.inl ⟨rfl, rfl⟩)

/-! ### Statements -/

theorem skipNewlines (hn : Room ample a 1 1 n) :
    Ensures o ample a (fun _ b => Reading (.nodes true) a [] b ∧ (a.current.kind = .newline → a.Past b))
      (skipNewlines n) := by
  induction n generalizing a with
  | zero => exact tooNested hn.not_ample
  | succ n ih =>
    refine (accept (by decide)).bind fun more b _ ⟨hlines, hpast, htaken⟩ => ite (fun hmore => ?_) fun hno => ?_
    · refine (ih (hn.past (hpast hmore)).pred).mono fun _ c ⟨hrest, _⟩ => ⟨(hlines true).append hrest, ?_⟩
      exact fun _ => (hpast hmore).reach hrest.reaches
    · exact pure ⟨hlines true, fun hk => absurd (htaken hk) hno⟩

theorem assignment (he : ReadsPast o ample a expr) :
    Ensures o ample a (fun x b => Reading (.nodes true) a [x] b) (assignment expr) := by
  refine identifier.bind fun target b hab htarget => current ?_
  have hpast : a.Past b := htarget.past_singleton
  split
  · rename_i op hop
    have hfixed : b.current.kind.Fixed := by
      refine ⟨?_, ?_, ?_⟩ <;> intro hk <;> rw [hk] at hop <;> cases hop
    refine advance.bind fun _ c hbc ⟨_, hc⟩ => ?_
    refine (he c (hpast.reach hbc)).bind fun x d _ hx => require hx fun hx => pure ?_
    exact .apply op ((htarget.append (.sign ⟨rfl, hc⟩ hfixed)).append hx)
  · refine expect.bind fun _ c hbc ⟨_, hsign⟩ => ?_
    refine (he c (hpast.reach hbc)).bind fun x d _ hx => require hx fun hx => pure ?_
    exact .assign ((htarget.append (.sign hsign (by decide))).append hx)

theorem assignments (he : ReadsPast o ample a expr) (hn : Room ample a 1 1 n) :
    Ensures o ample a (Reading (.nodes true) a) (assignments expr n) := by
  induction n generalizing a with
  | zero => exact tooNested hn.not_ample
  | succ n ih =>
    refine (assignment he).bind fun x b hab hx => (accept (by decide)).bind fun more c hbc ⟨hcomma, _, _⟩ => ?_
    have hac : a.Past c := hx.past_singleton.reach hbc
    refine ite (fun _ => ?_) fun _ => pure (hx.append (hcomma true))
    refine (ih (he.reach hac.reaches) (hn.past hac).pred).bind fun rest d _ hrest => pure ?_
    exact (hx.append (hcomma true)).append hrest

theorem statement (he : ReadsFrom o ample a expr) :
    Ensures o ample a (Reading (.nodes true) a) (statement expr) := by
  have hline : ∀ assigns : Bool, Ensures o ample a (Reading (.nodes true) a)
      (if assigns = true then Parser.bounded (Parser.assignments expr)
      else do
        let node ← expr
        return if node.isEmpty then [] else [node]) := by
    refine fun _ => ite (fun _ => bounded fun n hn => ?_) fun _ => ?_
    · exact assignments (fun b hb => he b hb.reaches) hn
    · refine (he a (.refl a)).bind fun x b _ hx => pure ?_
      rcases hx with ⟨hnone, rfl⟩ | hx
      · rw [if_pos hnone]
        exact .nil b
      · rw [if_neg (by rw [hx.isEmpty_eq_false x List.mem_cons_self]; simp)]
        exact .line hx
  exact branch (fun _ => following fun _ => hline _) fun _ => hline false

theorem moreStatements (he : ReadsFrom o ample a expr) (hn : Room ample a 1 1 n) :
    Ensures o ample a (Reading (.nodes true) a) (moreStatements expr n) := by
  induction n generalizing a with
  | zero => exact tooNested hn.not_ample
  | succ n ih =>
    refine branch (fun hk => ?_) fun _ => pure (.nil a)
    refine (bounded fun n hn => skipNewlines hn).bind fun _ b hab ⟨hlines, hpast⟩ => ?_
    refine (statement (he.reach hab)).bind fun xs c hbc hxs => ?_
    have hac : a.Past c := (hpast hk).reach hbc
    refine (ih (he.reach hac.reaches) (hn.past hac).pred).bind fun ys d _ hys => pure ?_
    exact (hlines.append hxs).append hys

theorem statementsWith (he : ReadsFrom o ample a expr) :
    Ensures o ample a (Reading (.nodes true) a) (statementsWith expr) := by
  refine (bounded fun n hn => skipNewlines hn).bind fun _ b hab ⟨hlines, _⟩ => ?_
  refine (statement (he.reach hab)).bind fun xs c hbc hxs => ?_
  refine (bounded fun n hn => moreStatements (he.reach (hab.trans hbc)) hn).bind fun ys d _ hys => pure ?_
  exact (hlines.append hxs).append hys

/-- **What the parsers of the grammar come to**, however deep the nesting.  A bound on nesting is ample if it
exceeds twice the tokens left, by one for operands, by two for expressions, by three for statements. -/
theorem grammar (n : Nat) : ∀ a,
    (Room ample a 2 1 n → Ensures o ample a (MayRead a) (Parser.factor n)) ∧
      (∀ s, Room ample a 2 2 n → Ensures o ample a (MayRead a) (Parser.expr n s)) ∧
      (Room ample a 2 3 n → Ensures o ample a (Reading (.nodes true) a) (Parser.statements n)) := by
  induction n with
  | zero =>
    exact fun a => ⟨fun h => tooNested h.not_ample, fun _ h => tooNested h.not_ample,
      fun h => tooNested h.not_ample⟩
  | succ n ih =>
    refine fun a => ⟨fun h => ?_, fun s h => ?_, fun h => ?_⟩
    · -- An operand is nested in another one behind a token, and statements behind two of them.
      exact factorWith (fun b hb => (ih b).1 (h.past hb).pred.weaken)
        (fun s b hb => (ih b).2.1 s (h.past hb).pred)
        fun b hb c hc => (ih c).2.2 ((h.past hb).past hc).pred.weaken
    · exact ternaryWith (fun b hb => (ih b).1 (h.reach hb).pred)
        fun b hb => (ih b).2.1 s (h.past hb).pred.weaken
    · exact statementsWith fun b hb => (ih b).2.1 _ (h.reach hb).pred

theorem program (h : ample → a.Closed) :
    Ensures o ample a (fun x b => b.current.kind = .eof ∧ ∃ xs,
      x = .block xs (some (a.current.span.upTo b.current.span)) ∧ Reading (.nodes true) a xs b) program := by
  have hroom : Room ample a 2 3 (depthFor a) := by
    refine fun hample => ⟨h hample, ?_⟩
    have hsize := a.left_lt_size
    unfold depthFor
    omega
  refine current (get (((grammar _ a).2.2 hroom).bind fun xs b _ hxs => current ?_))
  exact ite (fun hb => pure ⟨hb, xs, rfl, hxs⟩) fun _ => refuseHere nofun

end Ensures

/-- What an expression is, if it can be read. -/
theorem reads_of_expr {spacing : Spacing} {x : Node} (h : Parser.expr n spacing a = .ok (x, b)) :
    MayRead a x b := by
  have hensures : Ensures a False a (MayRead a) (Parser.expr n spacing) :=
    (Ensures.grammar n a).2.1 spacing False.elim
  exact ((hensures (.refl a) False.elim).1 x b h).2

/-- A program is a block of statements, up to the end of input. -/
theorem reads_of_program {x : Node} (h : Parser.program a = .ok (x, b)) :
    b.current.kind = .eof ∧ ∃ xs,
      x = .block xs (some (a.current.span.upTo b.current.span)) ∧ Reading (.nodes true) a xs b := by
  have hensures : Ensures a False a (fun x b => b.current.kind = .eof ∧ ∃ xs,
      x = .block xs (some (a.current.span.upTo b.current.span)) ∧ Reading (.nodes true) a xs b)
      Parser.program := .program False.elim
  exact ((hensures (.refl a) False.elim).1 x b h).2

/-- A program that cannot be read. -/
theorem stops_of_program {e : Error} (hc : ample → a.Closed) (h : Parser.program a = .error e) :
    Stops a ample e :=
  ((Ensures.program hc) (.refl a) hc).2 e h

end Parser

/-- The statements of a text that is a program are read from its first token up to the end of input. -/
theorem Node.reads_of_parse {file source : String} {program : Node} (h : parse file source = .ok program) :
    ∃ a b xs, Ahead.start (TokenStream.ofChars file source.toList) = .ok a ∧ b.current.kind = .eof ∧
      program = .block xs (some (a.current.span.upTo b.current.span)) ∧ Reading (.nodes true) a xs b := by
  obtain ⟨a, b, hstart, hrun⟩ := parse_eq_ok_iff.1 h
  obtain ⟨hk, xs, hblock, hread⟩ := Parser.reads_of_program hrun
  exact ⟨a, b, xs, hstart, hk, hblock, hread⟩

end Reckon
