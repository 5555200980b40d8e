import Reckon.Error

/-!
# Diagnostics

A diagnostic is an error made ready to be shown: its code and message, labels that point into the
source, and notes.
-/

namespace Reckon

/-- A pointer into a source, with something to say about the place. -/
structure Label where
  span : Span
  message : String := ""
deriving Repr, DecidableEq

/-- An error made ready to be shown. -/
structure Diagnostic where
  code : String
  message : String
  labels : List Label := []
  notes : List String := []
deriving Repr, DecidableEq

/-- How serious a diagnostic is; there are only errors. -/
def Diagnostic.severity : String := "error"

/-- How prominent a label is; there are only primary ones. -/
def Label.style : String := "primary"

/-- The diagnostic of an error: one label if its place is known. -/
def Error.diagnostic (e : Error) : Diagnostic where
  code := e.cause.code
  message := e.cause.message
  labels := e.span.toList.map fun s => { span := s }
  notes := e.cause.notes

end Reckon
