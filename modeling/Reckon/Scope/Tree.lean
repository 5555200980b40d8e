import Reckon.Eval.Program

/-!
# Trees of scopes

Scopes can also be built and used from outside a program: frames that stand in one another, each known
by its number.  The frames around one are found by going from parent to parent (`path`); how many they
are is stored with a frame when it is made.  A program that runs in a frame, or a call made there,
changes that frame alone.
-/

namespace Reckon

/-- A frame, the number of the frame around it, and how many frames there are around it. -/
structure ScopeTree.Entry where
  parent : Option Nat
  depth : Nat
  frame : Frame

/-- Frames that stand in one another; each one's parent has a smaller number. -/
structure ScopeTree where
  entries : List ScopeTree.Entry

namespace ScopeTree

/-- One frame. -/
def root (f : Frame) : ScopeTree :=
  ⟨[⟨none, 0, f⟩]⟩

/-- The frame of a number; outside the tree an empty one. -/
def frame (t : ScopeTree) (i : Nat) : Frame :=
  match t.entries[i]? with
  | some e => e.frame
  | none => {}

/-- The numbers of a frame and of those around it, the innermost first; `n` bounds their number. -/
def pathFrom (t : ScopeTree) : Nat → Nat → List Nat
  | 0, _ => []
  | n + 1, i =>
    match t.entries[i]? with
    | none => []
    | some e =>
      i :: (match e.parent with
        | none => []
        | some p => t.pathFrom n p)

/-- The numbers of a frame and of those around it, the innermost first. -/
def path (t : ScopeTree) (i : Nat) : List Nat :=
  t.pathFrom (i + 1) i

/-- How many frames stand around a frame; none around one that is outside the tree. -/
def depth (t : ScopeTree) (i : Nat) : Nat :=
  match t.entries[i]? with
  | some e => e.depth
  | none => 0

/-- A frame with those around it. -/
def scope (t : ScopeTree) (i : Nat) : Scope :=
  (t.path i).map t.frame

/-- The frames around a frame. -/
def outer (t : ScopeTree) (i : Nat) : Scope :=
  (t.scope i).drop 1

/-- Another frame in place of one. -/
def setFrame (t : ScopeTree) (i : Nat) (f : Frame) : ScopeTree :=
  ⟨t.entries.modify i fun e => { e with frame := f }⟩

/-- A new frame inside one, and its number. -/
def child (t : ScopeTree) (i : Nat) (name : String) : Nat × ScopeTree :=
  (t.entries.length, ⟨t.entries ++ [⟨some i, t.depth i + 1, { name := name }⟩]⟩)

/-- Binds a variable in a frame. -/
def assign (t : ScopeTree) (i : Nat) (name : String) (value : Value) : ScopeTree :=
  t.setFrame i ((t.frame i).assign name value)

/-- Defines a function in a frame. -/
def define (t : ScopeTree) (i : Nat) (name : String) (function : Function) : ScopeTree :=
  t.setFrame i ((t.frame i).define name function)

/-- What a variable is bound to in a frame itself. -/
def local? (t : ScopeTree) (i : Nat) (name : String) : Option Value :=
  (t.frame i).vars.get? name

/-- What a variable means in a frame. -/
def find (t : ScopeTree) (i : Nat) (name : String) : Except Failure Value :=
  match (t.scope i).findVariable? name with
  | some v => .ok v
  | none => .error (.ofCause (.undeclaredVariable name))

/-- What a function means in a frame, and the number of the frame that has it. -/
def findFunction (t : ScopeTree) (i : Nat) (name : String) : Except Failure (Function × Nat) :=
  let found := (t.path i).findSome? fun k => ((t.frame k).functions.get? name).map (·, k)
  match found with
  | some r => .ok r
  | none => .error (.ofCause (.undefinedFunction name))

/-- Runs something in a frame. -/
def within {α : Type} (t : ScopeTree) (i : Nat) (x : Eval α) : Except Failure α × ScopeTree :=
  let (r, m) := x { frame := t.frame i }
  (r, t.setFrame i m.frame)

/-- Calls a function in a frame. -/
def call (t : ScopeTree) (i : Nat) (name : String) (args : List Value) :
    Except Failure Value × ScopeTree :=
  t.within i (Eval.invoke (t.outer i) name args)

/-- Runs a program in a frame. -/
def run (t : ScopeTree) (i : Nat) (file source : String) : Except Failure Result × ScopeTree :=
  let (r, m) := Program.runIn (t.outer i) file source { frame := t.frame i }
  (r, t.setFrame i m.frame)

end ScopeTree

end Reckon
