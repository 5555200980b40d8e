import Reckon.Syntax.Node
import Reckon.Text.Quoted
import Reckon.Value.Text

/-!
# Outlines of syntax trees

The outline of a tree has a line per node and per part of a node, what belongs to a node indented
under it.  Literals stand on one line with their value.
-/

namespace Reckon

namespace Outline

/-- A line at a depth. -/
def line (depth : Nat) (s : String) : String :=
  String.ofList (List.replicate (2 * depth) ' ') ++ s

/-- The head of a part of a node. -/
def part (depth : Nat) (name : String) : String :=
  line depth ("  " ++ name ++ ":")

/-- A part of a node that is a word. -/
def wordPart (depth : Nat) (name value : String) : String :=
  line depth ("  " ++ name ++ ": " ++ Text.quote value)

/-- A name. -/
def identifier (depth : Nat) (name : String) : List String :=
  [line depth "Variable", wordPart depth "name" name]

/-- The words of a literal. -/
def literal (v : Value) : String :=
  "Literal " ++ (v.text? Decimal.defaultPrecision).getD ""

mutual

/-- The outline of a node. -/
def node (depth : Nat) : Node → List String
  | .empty _ => [line depth "Empty"]
  | .literal v _ => [line depth (literal v)]
  | .var name _ => identifier depth name
  | .unary op operand _ =>
    line depth "UnaryOp" :: wordPart depth "op" op.symbol :: part depth "operand"
      :: node (depth + 2) operand
  | .binary left op right _ =>
    line depth "BinaryOp" :: part depth "left" :: (node (depth + 2) left
      ++ wordPart depth "op" op.symbol :: part depth "right" :: node (depth + 2) right)
  | .ternary condition yes no _ =>
    line depth "TernaryOp" :: part depth "condition" :: (node (depth + 2) condition
      ++ part depth "then" :: (node (depth + 2) yes
      ++ part depth "otherwise" :: node (depth + 2) no))
  | .matrix rows _ => line depth "MatrixLiteral" :: part depth "rows" :: rowList (depth + 2) rows
  | .call function args _ =>
    line depth "FunctionCall" :: wordPart depth "name" function :: part depth "args"
      :: nodes (depth + 2) args
  | .assign target value _ =>
    line depth "Assignment" :: part depth "target" :: (identifier (depth + 2) target.name
      ++ part depth "value" :: node (depth + 2) value)
  | .block children _ =>
    line depth "Compound" :: part depth "children" :: nodes (depth + 2) children
  | .define name params body _ _ =>
    line depth "FunctionDefinition" :: wordPart depth "name" name :: part depth "params"
      :: (params.flatMap (fun p => identifier (depth + 2) p.name)
      ++ part depth "body" :: line (depth + 2) "Compound" :: part (depth + 2) "children"
      :: nodes (depth + 4) body)

/-- The outlines of nodes, one after the other. -/
def nodes (depth : Nat) : List Node → List String
  | [] => []
  | n :: rest => node depth n ++ nodes depth rest

/-- The outlines of rows of nodes. -/
def rowList (depth : Nat) : List (List Node) → List String
  | [] => []
  | row :: rest => line depth "-" :: (nodes (depth + 1) row ++ rowList depth rest)

end

end Outline

/-- The outline of a tree, line by line. -/
def Node.outline (n : Node) : List String :=
  Outline.node 0 n

end Reckon
