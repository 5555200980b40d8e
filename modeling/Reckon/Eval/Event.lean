import Reckon.Scope.Frame
import Reckon.Text.Quoted

/-!
# What a run tells about itself

While it runs a program leaves a trail: functions defined, scopes opened, calls made.  Each event has
a channel and a text.
-/

namespace Reckon

/-- Something that happened while a program ran. -/
inductive Event where
  | defined (function : String) (arity : Nat) (scope : String)
  | scopeOpened (name : String) (depth : Nat)
  | called (function : String) (arity depth : Nat)
  | nativeCalled (function : String)
  | nativesRegistered (count : Nat)
deriving Repr, DecidableEq

namespace Event

/-- The part of the program that speaks. -/
def channel : Event → String
  | nativesRegistered _ => "mathscript.builtins"
  | _ => "mathscript.symbols"

/-- What it says. -/
def message : Event → String
  | defined f n s =>
    "define " ++ f ++ "/" ++ toString n ++ " in scope " ++ Text.quote s
  | scopeOpened name d => "new scope " ++ Text.quote name ++ " at depth " ++ toString d
  | called f n d => "call " ++ f ++ "/" ++ toString n ++ " at depth " ++ toString d
  | nativeCalled f => "call builtin " ++ f
  | nativesRegistered n => "registered " ++ toString n ++ " builtins"

/-- A line of the trail. -/
def line (e : Event) : String :=
  e.channel ++ ": " ++ e.message

/-- What opening the outermost frame tells. -/
def globalOpened : List Event :=
  Builtin.all.map (fun b => defined b.name Builtin.arity Frame.global.name)
    ++ [nativesRegistered Builtin.all.length]

end Event

end Reckon
