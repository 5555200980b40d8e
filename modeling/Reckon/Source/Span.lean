/-!
# Spans

A span is a range of a source text, from one line and column to another, both included.  Lines and
columns count from one; nothing here relies on it.
-/

namespace Reckon

/-- A range of the text called `file`. -/
structure Span where
  file : String
  startLine : Int
  startCol : Int
  endLine : Int
  endCol : Int
deriving Repr, DecidableEq, Inhabited

namespace Span

/-- Where the span starts, as `file:line:column`. -/
def position (s : Span) : String :=
  s.file ++ ":" ++ toString s.startLine ++ ":" ++ toString s.startCol

/-- From the start of `s` to the end of `t`. -/
def upTo (s t : Span) : Span :=
  { s with endLine := t.endLine, endCol := t.endCol }

/-- The span of a single place. -/
def point (file : String) (line col : Nat) : Span :=
  ⟨file, line, col, line, col⟩

/-- From the start of the one to the end of the other, as far as they are known. -/
def join (s t : Option Span) : Option Span :=
  match s, t with
  | none, t => t
  | s, none => s
  | some s, some t => some (s.upTo t)

theorem upTo_self (s : Span) : s.upTo s = s := rfl

theorem upTo_upTo (s t u : Span) : (s.upTo t).upTo u = s.upTo u := rfl

@[simp]
theorem join_some (s t : Span) : join (some s) (some t) = some (s.upTo t) := rfl

@[simp]
theorem join_none_left (t : Option Span) : join none t = t := rfl

@[simp]
theorem join_none_right (s : Option Span) : join s none = s := by
  cases s <;> rfl

end Span

end Reckon
