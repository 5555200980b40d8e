import Reckon.Proofs.Printing.Phrase

/-!
# Printing

A phrase is printed as a row of chunks, which are lexemes and single blanks.  Parentheses stand where
precedence needs them: a phrase is put between parentheses where it binds more loosely than its place
allows (`enclose`).  Operators between operands and the marks of a condition have a blank on each
side, signs before an operand touch it, elements are separated by `, ` and rows by `; `, and each
statement has a line of its own.

Beyond the parentheses that are needed, `extra` says which phrases get a pair that is not, and where;
the plain print is the one without any (`plain`).
-/

namespace Reckon

/-- A chunk of a printed text. -/
inductive Chunk where
  | lexeme (kind : Token.Kind) (chars : List Char)
  | blank
deriving Repr, DecidableEq

namespace Chunk

/-- How a chunk is written. -/
def chars : Chunk → List Char
  | lexeme _ cs => cs
  | blank => [' ']

/-- A sign of this kind. -/
def sign (k : Token.Kind) : Chunk :=
  lexeme k (k.sign?.getD [])

/-- The chunks as one text. -/
def text (ps : List Chunk) : List Char :=
  ps.flatMap chars

/-- A name. -/
def ofName (x : Name) : Chunk :=
  lexeme .identifier x.chars

/-- A sign with a blank on each side. -/
def spaced (k : Token.Kind) : List Chunk :=
  [blank, sign k, blank]

/-- Chunks between parentheses. -/
def parens (ps : List Chunk) : List Chunk :=
  sign .lparen :: ps ++ [sign .rparen]

/-- Rows of chunks with a sign and a blank between each two. -/
def listed (separator : Token.Kind) (items : List (List Chunk)) : List Chunk :=
  [sign separator, blank].intercalate items

end Chunk

/-- The kind of token that an operator is. -/
def BinaryOp.kind : BinaryOp → Token.Kind
  | add => .plus
  | sub => .minus
  | mul => .star
  | div => .slash
  | rem => .percent
  | pow => .caret
  | lt => .less
  | le => .lessEqual
  | gt => .greater
  | ge => .greaterEqual
  | eq => .equal
  | ne => .notEqual
  | and => .and
  | or => .or
  | bitAnd => .ampersand
  | bitOr => .pipe

/-- The kind of token that a sign before an operand is. -/
def UnaryOp.kind : UnaryOp → Token.Kind
  | plus => .plus
  | minus => .minus
  | not => .bang

theorem BinaryOp.ofKind?_eq_some_iff {k : Token.Kind} {op : BinaryOp} :
    ofKind? k = some op ↔ k = op.kind := by
  constructor
  · cases k <;> simp [ofKind?] <;> rintro rfl <;> rfl
  · rintro rfl
    cases op <;> rfl

theorem UnaryOp.ofKind?_kind (op : UnaryOp) : ofKind? op.kind = some op := by
  cases op <;> rfl

open Chunk

/-- A line: an assignment, or the value alone. -/
def lineChunks (target : Option Name) (value : List Chunk) : List Chunk :=
  match target with
  | none => value
  | some x => ofName x :: spaced .assign ++ value

/-- Where a phrase can stand. -/
inductive Place where
  /-- Behind a sign. -/
  | signed
  | leftOf (op : BinaryOp)
  | rightOf (op : BinaryOp)
  | condition
  /-- After the question mark or the colon. -/
  | branch
  | cell
  | argument
  | line
deriving Repr, DecidableEq

/-- The rank of the loosest phrase that needs no parentheses there. -/
def Place.bound : Place → Nat
  | signed => 0
  | leftOf op => op.level + 1
  | rightOf op => op.level
  | condition => BinaryOp.levels
  | branch | cell | argument | line => BinaryOp.levels + 1

namespace Phrase

/-- No pair of parentheses that is not needed. -/
def plain : Place → Phrase → Bool :=
  fun _ _ => false

variable (extra : Place → Phrase → Bool)

/-- The chunks of `e`, which are `ps` without parentheses around them, at a place. -/
def enclose (place : Place) (e : Phrase) (ps : List Chunk) : List Chunk :=
  if e.rank ≤ place.bound ∧ extra place e = false then ps else parens ps

/-- The chunks of a phrase. -/
def chunks : Phrase → List Chunk
  | number n none => [lexeme .number n.chars]
  | number n (some u) => [lexeme .number n.chars, lexeme .identifier u.symbol.toList]
  | boolean b => [lexeme .reservedValue (if b then ['t', 'r', 'u', 'e'] else ['f', 'a', 'l', 's', 'e'])]
  | var x => [ofName x]
  | unary op e => sign op.kind :: enclose extra .signed e e.chunks
  | binary l op r =>
    enclose extra (.leftOf op) l l.chunks ++ spaced op.kind ++ enclose extra (.rightOf op) r r.chunks
  | ternary c y n =>
    enclose extra .condition c c.chunks ++ spaced .question ++ enclose extra .branch y y.chunks
      ++ spaced .colon ++ enclose extra .branch n n.chunks
  | matrix _ _ cells =>
    sign .lbracket ::
      listed .semicolon (List.ofFn fun i => listed .comma (List.ofFn fun j =>
        enclose extra .cell (cells i j) (cells i j).chunks)) ++ [sign .rbracket]
  | call f _ args =>
    ofName f :: parens (listed .comma (List.ofFn fun i =>
      enclose extra .argument (args i) (args i).chunks))
  | define f params _ _ targets body =>
    ofName f :: parens (listed .comma (params.map fun p => [ofName p])) ++ spaced .assign ++
      (sign .lbrace :: sign .newline ::
        (List.ofFn fun i => lineChunks (targets i) (enclose extra .line (body i) (body i).chunks)
          ++ [sign .newline]).flatten ++ [sign .rbrace])

end Phrase

namespace Statement

variable (extra : Place → Phrase → Bool)

/-- The chunks of a line. -/
def chunks (s : Statement) : List Chunk :=
  lineChunks s.target (s.value.enclose extra .line (s.value.chunks extra))

/-- The text of a program, one statement on each line. -/
def programText (p : List Statement) : String :=
  String.ofList (text (p.flatMap fun s => s.chunks extra ++ [sign .newline]))

end Statement

end Reckon
