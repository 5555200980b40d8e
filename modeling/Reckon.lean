import Reckon.Main
import Reckon.Proofs.Console.Session
import Reckon.Proofs.Diagnostic.Quoted
import Reckon.Proofs.Eval.Alpha
import Reckon.Proofs.Eval.Containment
import Reckon.Proofs.Eval.Failing
import Reckon.Proofs.Eval.Guarded
import Reckon.Proofs.Eval.Located
import Reckon.Proofs.Eval.Origin
import Reckon.Proofs.Eval.Relabelled
import Reckon.Proofs.Eval.Renamed
import Reckon.Proofs.Eval.Run
import Reckon.Proofs.Eval.Safety
import Reckon.Proofs.Eval.Sequence
import Reckon.Proofs.Eval.Shape
import Reckon.Proofs.Eval.Visit
import Reckon.Proofs.Lexing.Joined
import Reckon.Proofs.Lexing.Lexeme
import Reckon.Proofs.Lexing.Lossless
import Reckon.Proofs.Lexing.Next
import Reckon.Proofs.Lexing.Position
import Reckon.Proofs.Matrix.Shape
import Reckon.Proofs.Parsing.Climbing
import Reckon.Proofs.Parsing.Derived
import Reckon.Proofs.Parsing.Excerpt
import Reckon.Proofs.Parsing.Joined
import Reckon.Proofs.Parsing.Layers
import Reckon.Proofs.Parsing.Moves
import Reckon.Proofs.Parsing.OnDemand
import Reckon.Proofs.Parsing.Position
import Reckon.Proofs.Parsing.Traced
import Reckon.Proofs.Parsing.WellFormed
import Reckon.Proofs.Printing.Chunk
import Reckon.Proofs.Printing.Expression
import Reckon.Proofs.Printing.Legible
import Reckon.Proofs.Printing.Line
import Reckon.Proofs.Printing.Operand
import Reckon.Proofs.Printing.Phrase
import Reckon.Proofs.Printing.Reading
import Reckon.Proofs.Printing.RoundTrip
import Reckon.Proofs.Scope.Chain
import Reckon.Proofs.Scope.Listing
import Reckon.Proofs.Scope.Nesting
import Reckon.Proofs.Scope.Purity
import Reckon.Proofs.Scope.Renamed
import Reckon.Proofs.Scope.Shared
import Reckon.Proofs.Syntax.Bare
import Reckon.Proofs.Syntax.Place
import Reckon.Proofs.Syntax.Rename
import Reckon.Proofs.Value.Shape
import Reckon.Proofs.Value.Undefined
import Reckon.Scope.Tree
import Reckon.Proofs.Matrix.Determinant
import Reckon.Proofs.Lexing.Segments
import Reckon.Proofs.Lexing.Respaced
import Reckon.Proofs.Parsing.Element
import Reckon.Proofs.Parsing.Separated
import Reckon.Proofs.Matrix.FixedPoint
import Reckon.Proofs.Matrix.Product
import Reckon.Proofs.Matrix.Transpose
import Reckon.Proofs.Diagnostic.Carets
import Reckon.Proofs.Value.Table
import Reckon.Proofs.Parsing.Nested
import Reckon.Proofs.Lexing.Lookahead
import Reckon.Proofs.Lexing.Canonical
import Reckon.Proofs.Console.Transcript
import Reckon.Proofs.Parsing.Passage
import Reckon.Proofs.Eval.Compound
import Reckon.Proofs.Scope.History
import Reckon.Proofs.Diagnostic.Colour
import Reckon.Proofs.Parsing.Termination
import Reckon.Proofs.Parsing.Accounted
import Reckon.Proofs.Parsing.Units
import Reckon.Proofs.Matrix.Bounded
import Reckon.Proofs.Parsing.InStep
