import Reckon.Syntax.Node
import Reckon.Token.Cursor

/-!
# Parsing

A program is read by recursive descent with one token of lookahead.  Binary operators are read by
precedence climbing (`climb`): one loop takes every operator that binds tightly enough and recurses
only for its right operand.  Inside a matrix row blanks matter to `+` and `-`, so that `[1 -2]` has two
elements and `[1 - 2]` and `[1-2]` have one; brackets and parentheses inside the row end that.

Tokens are taken lazily: a character that starts no token is an error only once the token before it is
passed (`Ahead.advance`) or looked beyond (`Ahead.following`).

Each rule that nests is a function of the parsers for what is nested in it (`ternaryWith`,
`factorWith`, `statementsWith`, ...), and `expr`, `factor` and `statements` tie them together.  Their
first argument bounds the nesting.  Every level of nesting takes a token, so a bound computed from the
number of tokens is never met; the same holds of the loops.  The error that would report it is
`SyntaxFault.nesting`.
-/

namespace Reckon

/-- The tokens still to be read: the current one, those behind it, and how they end. -/
structure Ahead where
  current : Token
  rest : List Token
  ending : Except Error Token

/-- Parsers read some of the tokens ahead and give a result or an error. -/
abbrev Parser := StateT Ahead (Except Error)

namespace Ahead

/-- The tokens of a stream, from its first one on. -/
def start (s : TokenStream) : Except Error Ahead :=
  match s.tokens with
  | t :: rest => .ok ⟨t, rest, s.ending⟩
  | [] => s.ending.map fun t => ⟨t, [], s.ending⟩

/-- Past the current token.  The end of input is never passed. -/
def advance (a : Ahead) : Except Error Ahead :=
  if a.current.kind = .eof then .ok a
  else
    match a.rest with
    | t :: rest => .ok { a with current := t, rest := rest }
    | [] => a.ending.map fun t => { a with current := t }

/-- The token behind the current one, which is not the end of input. -/
def following (a : Ahead) : Except Error Token :=
  match a.rest with
  | t :: _ => .ok t
  | [] => a.ending

/-- How many tokens are left, the end of input included. -/
def size (a : Ahead) : Nat :=
  a.rest.length + 2

end Ahead

namespace Parser

/-! ## Single tokens -/

/-- The current token. -/
def current : Parser Token := do
  return (← get).current

/-- Takes the current token. -/
def advance : Parser Token := do
  let a ← get
  set (← a.advance)
  return a.current

/-- The token behind the current one. -/
def following : Parser Token := do
  (← get).following

/-- The current token is of this kind. -/
def at? (kind : Token.Kind) : Parser Bool := do
  return (← current).kind == kind

/-- Refuses the program at a place. -/
def refuse {α : Type} (fault : SyntaxFault) (span : Option Span) : Parser α :=
  throw { cause := .grammar fault, span := span }

/-- Refuses the program at the current token. -/
def refuseHere {α : Type} (fault : Token → SyntaxFault) : Parser α := do
  let t ← current
  refuse (fault t) (some t.span)

/-- Takes a token of this kind. -/
def expect (kind : Token.Kind) : Parser Token := do
  if ← at? kind then advance else refuseHere (.expected kind)

/-- Takes a token of this kind if there is one. -/
def accept (kind : Token.Kind) : Parser Bool := do
  if ← at? kind then
    let _ ← advance
    return true
  else return false

/-- Refuses a missing operand. -/
def require (node : Node) : Parser Node := do
  if node.isEmpty then refuseHere .expectedExpression else return node

/-- The bound on the nesting is used up. -/
def tooNested {α : Type} : Parser α :=
  refuseHere fun _ => .nesting

/-- Runs a loop with as many rounds as there are tokens left. -/
def bounded {α : Type} (loop : Nat → Parser α) : Parser α := do
  loop (← get).size

/-! ## Operators -/

/-- Whether blanks decide about signs. -/
inductive Spacing where
  /-- Between brackets: a sign apart from its left neighbour and next to its right one starts a new
  element. -/
  | matters
  /-- Everywhere else. -/
  | ignored
deriving Repr, DecidableEq

/-- The operator that the token is in this context, if it is one and binds more tightly than
`bound`. -/
def operator? (spacing : Spacing) (bound : Nat) (t : Token) : Option BinaryOp :=
  match BinaryOp.ofKind? t.kind with
  | some op =>
    if op.level < bound ∧ (op.isSign && spacing == .matters && !t.joinsNeighbours) = false then some op
    else none
  | none => none

/-- Goes on from a left operand with every operator that binds more tightly than `bound`. -/
def climb (factor : Parser Node) (spacing : Spacing) : Nat → Nat → Node → Parser Node
  | 0, _, _ => tooNested
  | n + 1, bound, left => do
    match operator? spacing bound (← current) with
    | none => return left
    | some op =>
      let left ← require left
      let _ ← advance
      let right ← require (← climb factor spacing n op.level (← factor))
      climb factor spacing n bound (.binary left op right (Span.join left.span right.span))

/-- Operands joined by operators that bind more tightly than `bound`. -/
def binary (factor : Parser Node) (spacing : Spacing) (bound : Nat) : Parser Node := do
  let left ← factor
  bounded fun n => climb factor spacing n bound left

/-- An expression: operators, and possibly a condition's two branches. -/
def ternaryWith (factor : Parser Node) (expr : Parser Node) (spacing : Spacing) : Parser Node := do
  let condition ← binary factor spacing BinaryOp.levels
  if ← at? .question then
    let condition ← require condition
    let _ ← advance
    let yes ← require (← expr)
    let _ ← expect .colon
    let no ← require (← expr)
    return .ternary condition yes no (Span.join condition.span no.span)
  else return condition

/-! ## Operands -/

/-- A number and the unit that touches it. -/
def number : Parser Node := do
  let t ← advance
  let next ← current
  match LengthUnit.ofSymbol? next.text with
  | some unit =>
    if next.kind = .identifier ∧ next.span.startLine = t.span.endLine
        ∧ next.span.startCol = t.span.endCol + 1 then
      let _ ← advance
      return .literal (.number t.value (some unit)) (some (t.span.upTo next.span))
    else return .literal (.number t.value none) (some (t.span.upTo t.span))
  | none => return .literal (.number t.value none) (some (t.span.upTo t.span))

/-- A name. -/
def identifier : Parser Identifier := do
  let t ← expect .identifier
  return ⟨t.text, some t.span⟩

/-- The arguments of a call up to the closing parenthesis; a comma may stand after the last one. -/
def arguments (expr : Parser Node) : Nat → Parser (List Node)
  | 0 => tooNested
  | n + 1 => do
    if ← at? .rparen then return []
    let arg ← require (← expr)
    if ← accept .comma then return arg :: (← arguments expr n) else return [arg]

/-- A call: its name, its arguments and its span. -/
def call (expr : Parser Node) : Parser (String × List Node × Option Span) := do
  let name ← advance
  let _ ← expect .lparen
  let args ← bounded (arguments expr)
  let last ← expect .rparen
  return (name.text, args, some (name.span.upTo last.span))

/-- The parameters that the arguments of a call name, if it is to be a definition. -/
def parameters (function : String) (callSpan : Option Span) :
    List Identifier → List Node → Parser (List Identifier)
  | params, [] => return params
  | params, arg :: rest =>
    let place := arg.span.orElse fun _ => callSpan
    match arg.identifier? with
    | none => refuse (.parameterShape function) place
    | some p =>
      if params.any fun q => q.name == p.name then refuse (.duplicateParameter p.name function) place
      else parameters function callSpan (params ++ [p]) rest

/-- The body of a definition: a block between braces or an expression. -/
def body (expr : Parser Node) (statements : Parser (List Node)) :
    Parser (List Node × Option Span) := do
  if ← at? .lbrace then
    let first ← advance
    let children ← statements
    let last ← expect .rbrace
    return (children, some (first.span.upTo last.span))
  else
    let value ← require (← expr)
    return ([value], value.span)

/-- A call, or a definition if `=` or `=>` follows it. -/
def callOrDefinition (expr : Parser Node) (statements : Parser (List Node)) : Parser Node := do
  let (name, args, callSpan) ← call expr
  let t ← current
  if t.kind = .assign ∨ t.kind = .fatArrow then
    let _ ← advance
    let params ← parameters name callSpan [] args
    let (children, bodySpan) ← body expr statements
    return .define name params children bodySpan (Span.join callSpan bodySpan)
  else return .call name args callSpan

/-- The elements of a matrix row, up to a semicolon or the closing bracket; commas between them are
optional. -/
def matrixRow (element : Parser Node) : Nat → Parser (List Node)
  | 0 => tooNested
  | n + 1 => do
    let e ← element
    if e.isEmpty then refuseHere .expectedElement
    else
      let t ← current
      if t.kind = .semicolon ∨ t.kind = .rbracket then return [e]
      let _ ← accept .comma
      return e :: (← matrixRow element n)

/-- The rows of a matrix up to the closing bracket; a semicolon may stand after the last one. -/
def matrixRows (element : Parser Node) : Nat → Parser (List (List Node))
  | 0 => tooNested
  | n + 1 => do
    if ← at? .rbracket then return []
    let row ← bounded (matrixRow element)
    let _ ← accept .semicolon
    return row :: (← matrixRows element n)

/-- The first row, counted from `index`, whose length is not `width`. -/
def unevenRow? (width : Nat) : Nat → List (List Node) → Option (Nat × Nat)
  | _, [] => none
  | index, row :: rest =>
    if row.length = width then unevenRow? width (index + 1) rest else some (index, row.length)

/-- A matrix literal. -/
def matrix (element : Parser Node) : Parser Node := do
  let first ← expect .lbracket
  let rows ← bounded (matrixRows element)
  let last ← expect .rbracket
  let span := some (first.span.upTo last.span)
  match rows with
  | [] => refuse .emptyMatrix span
  | row :: rest =>
    match unevenRow? row.length 2 rest with
    | some (index, got) => refuse (.rowLength index got row.length) span
    | none => return .matrix rows span

/-- An operand with the signs before it; nothing, if no operand starts here. -/
def factorWith (factor : Parser Node) (expr : Spacing → Parser Node)
    (statements : Parser (List Node)) : Parser Node := do
  let t ← current
  match UnaryOp.ofKind? t.kind with
  | some op =>
    let _ ← advance
    let operand ← require (← factor)
    return .unary op operand (Span.join (some t.span) operand.span)
  | none =>
    match t.kind with
    | .number => number
    | .lparen =>
      let _ ← advance
      let node ← require (← expr .ignored)
      let _ ← expect .rparen
      return node
    | .lbracket => matrix (expr .matters)
    | .reservedValue =>
      let _ ← advance
      return .literal (.boolean (t.text == "true")) (some t.span)
    | .identifier =>
      if (← following).kind = .lparen then callOrDefinition (expr .ignored) statements
      else
        let name ← identifier
        return .var name.name name.span
    | _ => return .empty (some t.span)

/-! ## Statements -/

/-- Passes over newlines. -/
def skipNewlines : Nat → Parser Unit
  | 0 => tooNested
  | n + 1 => do
    if ← accept .newline then skipNewlines n

/-- One assignment; one that applies an operator first repeats its target as the left operand. -/
def assignment (expr : Parser Node) : Parser Node := do
  let target ← identifier
  let t ← current
  match assignment? t.kind with
  | some (some op) =>
    let _ ← advance
    let value ← require (← expr)
    let span := Span.join target.span value.span
    return .assign target (.binary (.var target.name target.span) op value span) span
  | _ =>
    let _ ← expect .assign
    let value ← require (← expr)
    return .assign target value (Span.join target.span value.span)

/-- Assignments with commas between them. -/
def assignments (expr : Parser Node) : Nat → Parser (List Node)
  | 0 => tooNested
  | n + 1 => do
    let first ← assignment expr
    if ← accept .comma then return first :: (← assignments expr n) else return [first]

/-- One line: assignments, an expression, or nothing. -/
def statement (expr : Parser Node) : Parser (List Node) := do
  let assigns ← do
    if ← at? .identifier then pure (assignment? (← following).kind).isSome else pure false
  if assigns then bounded (assignments expr)
  else
    let node ← expr
    return if node.isEmpty then [] else [node]

/-- Lines from the second one on, each after a newline. -/
def moreStatements (expr : Parser Node) : Nat → Parser (List Node)
  | 0 => tooNested
  | n + 1 => do
    if ← at? .newline then
      bounded skipNewlines
      let first ← statement expr
      return first ++ (← moreStatements expr n)
    else return []

/-- Lines with newlines between them. -/
def statementsWith (expr : Parser Node) : Parser (List Node) := do
  bounded skipNewlines
  let first ← statement expr
  return first ++ (← bounded (moreStatements expr))

/-! ## The grammar -/

mutual

/-- An expression, nested at most `n` deep. -/
def expr : Nat → Spacing → Parser Node
  | 0, _ => tooNested
  | n + 1, spacing => ternaryWith (factor n) (expr n spacing) spacing

/-- An operand, nested at most `n` deep. -/
def factor : Nat → Parser Node
  | 0 => tooNested
  | n + 1 => factorWith (factor n) (expr n) (statements n)

/-- Lines of a program or of a block, nested at most `n` deep. -/
def statements : Nat → Parser (List Node)
  | 0 => tooNested
  | n + 1 => statementsWith (expr n .ignored)

end

/-- A nesting that the tokens ahead cannot reach. -/
def depthFor (a : Ahead) : Nat :=
  2 * a.size + 2

/-- A whole program. -/
def program : Parser Node := do
  let first ← current
  let children ← statements (depthFor (← get))
  let last ← current
  if last.kind = .eof then return .block children (some (first.span.upTo last.span))
  else refuseHere .unexpected

end Parser

namespace Node

/-- The program that a stream of tokens is. -/
def ofTokens (s : TokenStream) : Except Error Node := do
  let a ← Ahead.start s
  let (program, _) ← Parser.program a
  return program

/-- The program that a text is; `file` is what its spans call the text. -/
def parse (file : String) (source : String) : Except Error Node :=
  ofTokens (TokenStream.ofChars file source.toList)

end Node

end Reckon
