import Reckon.Number.ExactSum
import Reckon.Source.Span
import Reckon.Token.Basic
import Reckon.Value.Basic

/-!
# Errors

An error is a cause and, once it is known, the place in the source it is about.  A cause knows its
code, its message and its notes; the wording of every message stands in this module.  Where a cause
can also be given freely, by whoever embeds the language, it has a constructor `stated`.

A run can also break off for a reason that is not an error of the program text and has no code
(`Mishap`): an evaluation too deep, or arithmetic that has no result at all.
-/

namespace Reckon

/-- Rows and columns of a matrix, as a message gives them. -/
abbrev Dims := Int × Int

/-- A text that the grammar does not allow. -/
inductive SyntaxFault where
  /-- Another kind of token has to stand here. -/
  | expected (kind : Token.Kind) (got : Token)
  /-- An operand is missing. -/
  | expectedExpression (got : Token)
  /-- A matrix element is missing. -/
  | expectedElement (got : Token)
  /-- Something follows the end of the program. -/
  | unexpected (got : Token)
  /-- A function is defined with a parameter that is no name. -/
  | parameterShape (function : String)
  /-- A function is defined with the same parameter twice. -/
  | duplicateParameter (name function : String)
  /-- A matrix without elements. -/
  | emptyMatrix
  /-- A matrix row that is longer or shorter than the first one. -/
  | rowLength (index got expected : Nat)
  /-- Nested more deeply than its number of tokens allows. -/
  | nesting
  | stated (message : String) (notes : List String)
deriving Repr, DecidableEq

/-- Dimensions that an operation does not allow. -/
inductive DimensionFault where
  /-- The rows of a matrix differ in length, or from its dimensions. -/
  | ragged
  | powerNotSquare
  | determinantNotSquare (dims : Dims)
  /-- Two matrices that an operation takes entry by entry differ in dimensions. -/
  | unequal (op : String) (left right : Dims)
  /-- A product of matrices whose inner dimensions differ. -/
  | inner (left right : Dims)
  | stated (op : String) (left : Dims) (right : Option Dims) (reason : String) (notes : List String)
deriving Repr, DecidableEq

/-- The three outcomes of evaluating a node: nothing, one value, or a sequence of values. -/
inductive ResultKind where
  | none
  | single
  | compound
deriving Repr, DecidableEq

/-- An evaluation that cannot go on. -/
inductive EvaluationFault where
  /-- A value is needed where a definition or nothing stands. -/
  | noValue
  /-- The outcome is not one value. -/
  | notSingle (kind : ResultKind)
  | conditionKind (kind : ValueKind)
  | elementKind (kind : ValueKind)
  | nothingReturned (function : String)
  | powerDomain (base exponent : Float)
  | powerOverflow
  | matrixExponent (exponent : Float)
  | stated (message : String) (notes : List String)
deriving Repr

/-- An argument that a native function does not take. -/
inductive ArgumentFault where
  | expectsMatrix (function : String) (got : ValueKind)
  | expectsNumber (function : String) (got : ValueKind)
  | negativeRoot (x : Float)
  | stated (message : String) (notes : List String)
deriving Repr

/-- Why a program is refused or fails. -/
inductive Cause where
  | stated (message : String) (notes : List String)
  | unexpectedSymbol (symbol : String) (position : Int)
  | grammar (fault : SyntaxFault)
  | evaluation (fault : EvaluationFault)
  | undeclaredVariable (name : String)
  | unsupportedOperation (op left : String) (right : Option String)
  | dimensionMismatch (fault : DimensionFault)
  | undefinedFunction (name : String)
  | arityMismatch (name : String) (expected got : Int)
  | divisionByZero (op : String)
  | argument (fault : ArgumentFault)
deriving Repr

/-! ## Messages and notes -/

/-- Dimensions as `rows x columns`. -/
def Dims.text (d : Dims) : String :=
  toString d.1 ++ " x " ++ toString d.2

/-- A text between single quotes. -/
def inQuotes (s : String) : String :=
  "'" ++ s ++ "'"

def SyntaxFault.message : SyntaxFault → String
  | expected kind got => "expected " ++ kind.describe ++ ", got " ++ got.describe
  | expectedExpression got => "expected an expression, got " ++ got.describe
  | expectedElement got => "expected a matrix element, got " ++ got.describe
  | unexpected got => "unexpected " ++ got.describe
  | parameterShape f => "parameters of " ++ inQuotes f ++ " must be plain variable names"
  | duplicateParameter p f => "duplicate parameter " ++ inQuotes p ++ " in " ++ inQuotes f
  | emptyMatrix => "empty matrix literal"
  | rowLength i got want =>
    "matrix row " ++ toString i ++ " has " ++ toString got ++ " elements, expected " ++ toString want
  | nesting => "nested too deeply"
  | stated m _ => m

def SyntaxFault.notes : SyntaxFault → List String
  | parameterShape f => ["define it as " ++ f ++ "(x, y) = expression"]
  | stated _ ns => ns
  | _ => []

/-- The message about an operation on one or two matrices. -/
def dimensionsText (op : String) (left : Dims) : Option Dims → String
  | none => "unsupported dimensions for " ++ inQuotes op ++ ": " ++ left.text
  | some right =>
    "unsupported dimensions for " ++ inQuotes op ++ ": " ++ left.text ++ " and " ++ right.text

def DimensionFault.message : DimensionFault → String
  | ragged => "matrix rows must all have the same number of columns"
  | powerNotSquare => "matrix must be square to take a power"
  | determinantNotSquare d => "determinant needs a square matrix, got " ++ d.text
  | unequal op left right => dimensionsText op left (some right)
  | inner left right => dimensionsText "*" left (some right)
  | stated op left right reason _ => if reason = "" then dimensionsText op left right else reason

def DimensionFault.notes : DimensionFault → List String
  | inner left right =>
    ["the left operand has " ++ toString left.2 ++ " columns but the right operand has "
      ++ toString right.1 ++ " rows"]
  | stated _ _ _ _ ns => ns
  | _ => []

/-- The name by which messages call an outcome. -/
def ResultKind.name : ResultKind → String
  | none => "none"
  | single => "single"
  | compound => "compound"

def EvaluationFault.message : EvaluationFault → String
  | noValue => "expression does not produce a value"
  | notSingle k => "expected a single value, got " ++ k.name
  | conditionKind k => "condition must be a Boolean, got " ++ k.name
  | elementKind k => "matrix elements must be numbers, got " ++ k.name
  | nothingReturned f => "function " ++ inQuotes f ++ " didn't return anything"
  | powerDomain x y =>
    "math domain error in '^' for " ++ Decimal.brief x ++ " ^ " ++ Decimal.brief y
  | powerOverflow => "numeric overflow in '^'"
  | matrixExponent x =>
    "matrix power needs a non-negative integer exponent, got " ++ Decimal.brief x
  | stated m _ => m

def EvaluationFault.notes : EvaluationFault → List String
  | stated _ ns => ns
  | _ => []

def ArgumentFault.message : ArgumentFault → String
  | expectsMatrix f k => inQuotes f ++ " expects a Matrix, got " ++ k.name
  | expectsNumber f k => inQuotes f ++ " expects a Number, got " ++ k.name
  | negativeRoot x => "'sqrt' expects a non-negative Number, got " ++ Decimal.brief x
  | stated m _ => m

def ArgumentFault.notes : ArgumentFault → List String
  | stated _ ns => ns
  | _ => []

namespace Cause

/-- The code of an error. -/
def code : Cause → String
  | stated _ _ => "E000"
  | unexpectedSymbol _ _ => "E100"
  | grammar _ => "E200"
  | evaluation _ => "E300"
  | undeclaredVariable _ => "E301"
  | unsupportedOperation _ _ _ => "E302"
  | dimensionMismatch _ => "E303"
  | undefinedFunction _ => "E304"
  | arityMismatch _ _ _ => "E305"
  | divisionByZero _ => "E306"
  | argument _ => "E307"

/-- What the error says. -/
def message : Cause → String
  | stated m _ => m
  | unexpectedSymbol s p => "unexpected symbol " ++ Text.quote s ++ " at " ++ toString p
  | grammar f => f.message
  | evaluation f => f.message
  | undeclaredVariable n => "variable " ++ inQuotes n ++ " not declared"
  | unsupportedOperation op left (some right) =>
    "unsupported operation " ++ inQuotes op ++ " between " ++ left ++ " and " ++ right
  | unsupportedOperation op left none => "unsupported operation " ++ inQuotes op ++ " on " ++ left
  | dimensionMismatch f => f.message
  | undefinedFunction n => "function " ++ inQuotes n ++ " not defined"
  | arityMismatch n want got =>
    inQuotes n ++ " expects " ++ toString want ++ " argument" ++ (if want = 1 then "" else "s")
      ++ ", got " ++ toString got
  | divisionByZero op => "division by zero in " ++ inQuotes op
  | argument f => f.message

/-- What is said below the message. -/
def notes : Cause → List String
  | stated _ ns => ns
  | grammar f => f.notes
  | evaluation f => f.notes
  | dimensionMismatch f => f.notes
  | argument f => f.notes
  | _ => []

/-- The error arises while a program runs, not while it is read. -/
def isEvaluation : Cause → Bool
  | stated _ _ | unexpectedSymbol _ _ | grammar _ => false
  | _ => true

end Cause

/-- An error, with the place it is about. -/
structure Error where
  cause : Cause
  span : Option Span := none
deriving Repr

/-- The error placed at `span`, unless it already has a place. -/
def Error.locate (e : Error) (span : Option Span) : Error :=
  match e.span with
  | some _ => e
  | none => { e with span := span }

/-- A break-off without a code. -/
inductive Mishap where
  /-- The evaluation is nested too deeply. -/
  | tooDeep
  /-- The remainder of an infinity was asked for. -/
  | infiniteRemainder
  /-- A sum has no value. -/
  | sum (fault : Number.SumFault)
deriving Repr, DecidableEq

/-- How an evaluation fails. -/
inductive Failure where
  | reported (error : Error)
  | mishap (cause : Mishap)
deriving Repr

namespace Failure

/-- A failure whose place is not known yet. -/
def ofCause (c : Cause) : Failure :=
  .reported { cause := c }

/-- A failure at a place. -/
def placed (c : Cause) (span : Option Span) : Failure :=
  .reported { cause := c, span := span }

/-- The failure placed at `span`, if it is an error without a place. -/
def locate (span : Option Span) : Failure → Failure
  | .reported e => .reported (e.locate span)
  | .mishap m => .mishap m

end Failure

/-! ## Placing errors -/

@[simp]
theorem Error.locate_cause (e : Error) (span : Option Span) : (e.locate span).cause = e.cause := by
  unfold Error.locate
  split <;> rfl

/-- The first place wins. -/
theorem Error.locate_locate (e : Error) (s t : Option Span) :
    (e.locate s).locate t = e.locate (s.orElse fun _ => t) := by
  cases e with
  | mk cause span =>
    cases span with
    | some x => rfl
    | none => cases s <;> rfl

end Reckon
