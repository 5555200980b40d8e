import Reckon.Eval.Basic
import Reckon.Syntax.Parser

/-!
# Programs

A program text is parsed and then evaluated.  In a session several programs run one after the other in
the same frame, and see what the earlier ones left there, also those that failed.  `interpret` is for
callers that want one number and no errors.
-/

namespace Reckon.Program

/-- The outcome of a run, and the machine after it. -/
abbrev Run := Except Failure Result × Machine

/-- Evaluates a node in a machine, with frames around it. -/
def evaluate (outer : Scope) (node : Node) (m : Machine) : Run :=
  (Eval.node outer node) m

/-- Parses a text and runs it in a machine, with frames around it. -/
def runIn (outer : Scope) (file source : String) (m : Machine) : Run :=
  match Node.parse file source with
  | .error e => (.error (.reported e), m)
  | .ok node => evaluate outer node m

/-- A machine that has just opened its outermost frame. -/
def fresh : Machine where
  frame := Frame.global
  log := Event.globalOpened.reverse

/-- Parses a text and runs it on its own.  Nothing is opened for a text that does not parse. -/
def run (file source : String) : Run :=
  match Node.parse file source with
  | .error e => (.error (.reported e), { frame := Frame.global })
  | .ok node => evaluate [] node fresh

/-- Runs the programs of a session in order: each one's outcome and the frame after it. -/
def session (file : String) : Machine → List String → List (Except Failure Result × Frame)
  | _, [] => []
  | m, source :: rest =>
    let (r, m') := runIn [] file source m
    (r, m'.frame) :: session file m' rest

/-- Evaluates nodes one by one in the same machine. -/
def evaluateEach : Machine → List Node → List (Except Failure Result)
  | _, [] => []
  | m, node :: rest =>
    let (r, m') := evaluate [] node m
    r :: evaluateEach m' rest

/-! ## One number and no errors -/

/-- Why `interpret` gives no number of the program's. -/
inductive Warning where
  | failed (cause : Cause)
  | tooDeep
  | noNumber
deriving Repr

namespace Warning

/-- The part of the program that warns. -/
def channel : String := "mathscript.interpreter"

/-- What it says. -/
def message : Warning → String
  | failed c => "interpret failed: [" ++ c.code ++ "] " ++ c.message
  | tooDeep => "interpret failed: maximum recursion depth exceeded"
  | noNumber => "interpret produced no numeric result"

end Warning

/-- What stands for a number where there is none. -/
def noNumber : Float := -1.0

/-- The last number among the values, a truth value counting as one. -/
def lastNumber? (vs : List Value) : Option Float :=
  vs.reverse.findSome? Value.number?

/-- The last number of a program and the warning that there was none; a failure of arithmetic that is
no error of the language is passed on. -/
def interpret (source : String) : Except Mishap (Float × Option Warning) :=
  match (run "<input>" source).1 with
  | .ok r =>
    match lastNumber? r.values with
    | some x => .ok (x, none)
    | none => .ok (noNumber, some .noNumber)
  | .error (.reported e) => .ok (noNumber, some (.failed e.cause))
  | .error (.mishap .tooDeep) => .ok (noNumber, some .tooDeep)
  | .error (.mishap m) => .error m

end Reckon.Program
