import Reckon.Diagnostic.Render
import Reckon.Eval.Program
import Reckon.Settings
import Reckon.Syntax.Outline
import Reckon.Text.Style
import Reckon.Value.Text

/-!
# Commands and what they write

A command runs against what it can see (`Environment`) and leaves behind what it wrote (`Report`).  It
can end early: because it was not called properly, because the program it ran failed, or because
something broke it off that has no error of its own (`Crash`).
-/

namespace Reckon

/-- What a command can see. -/
structure Environment where
  files : FileTree := {}
  /-- What stands on standard input. -/
  input : String := ""
  /-- Someone is typing the input. -/
  interactive : Bool := false
  /-- The output can show styles. -/
  styled : Bool := false

/-- What broke a command off. -/
inductive Crash where
  | settings (fault : Settings.Fault)
  | mishap (cause : Mishap)
  /-- Numbers cannot be shown with so many digits. -/
  | precision
  /-- A line that ends a program is no text or number. -/
  | sentinel
  /-- The prompt cannot be shown. -/
  | prompt
deriving Repr, DecidableEq

/-- How a command ends early. -/
inductive Ending where
  /-- It was not called properly. -/
  | usage
  /-- A program failed. -/
  | failed
  | crash (cause : Crash)
deriving Repr, DecidableEq

/-- What a command wrote. -/
structure Report where
  out : String := ""
  err : String := ""
deriving Repr, DecidableEq

/-- Commands write and can end early. -/
abbrev Shell := ExceptT Ending (StateM Report)

namespace Shell

/-- A text as its destination gets it. -/
def styleFor (styled : Bool) (s : String) : String :=
  if styled then s else String.ofList (Text.dropStyles s.toList)

/-- Writes to the output. -/
def put (env : Environment) (s : String) : Shell Unit :=
  modify fun r => { r with out := r.out ++ styleFor env.styled s }

/-- Writes a line to the output. -/
def putLine (env : Environment) (s : String) : Shell Unit :=
  put env (s ++ "\n")

/-- Writes a line about a failure. -/
def warnLine (env : Environment) (s : String) : Shell Unit :=
  modify fun r => { r with err := r.err ++ styleFor env.styled (s ++ "\n") }

/-- Writes a line about what happens. -/
def traceLine (s : String) : Shell Unit :=
  modify fun r => { r with err := r.err ++ s ++ "\n" }

end Shell

/-- What a command works with. -/
structure Job where
  env : Environment
  settings : Settings
  /-- Tell what happens while programs run. -/
  verbose : Bool

namespace Job

/-- Shows an error in a source. -/
def reportError (job : Job) (file source : String) (e : Error) : Shell Unit :=
  let renderer := ({ color := job.settings.color } : Renderer).register file source
  Shell.warnLine job.env (e.diagnostic.text renderer.color renderer.sources)

/-- Shows what happened. -/
def reportEvents (job : Job) (m : Machine) : Shell Unit :=
  if job.verbose then m.log.reverse.forM fun e => Shell.traceLine e.line else pure ()

/-- Shows a value. -/
def showValue (job : Job) (v : Value) : Shell Unit :=
  match v.text? job.settings.precision with
  | some s => Shell.putLine job.env s
  | none => throw (.crash .precision)

/-- Shows the outcome of a run; whether it went well. -/
def showRun (job : Job) (file source : String) (run : Program.Run) : Shell Bool := do
  job.reportEvents run.2
  match run.1 with
  | .ok r => do
    r.values.forM job.showValue
    return true
  | .error (.reported e) => do
    job.reportError file source e
    return false
  | .error (.mishap .tooDeep) => do
    Shell.warnLine job.env "error: maximum recursion depth exceeded"
    return false
  | .error (.mishap m) => throw (.crash (.mishap m))

/-- Runs a program on its own and shows the outcome. -/
def runAlone (job : Job) (file source : String) : Shell Unit := do
  if ← job.showRun file source (Program.run file source) then return else throw .failed

/-- The name and the text of a file; standard input goes by a dash. -/
def openFile (job : Job) (name : String) : Shell (String × String) := do
  let found := if name = "-" then some ("<stdin>", job.env.input)
    else (job.env.files.read? name).map (name, ·)
  match found with
  | some (name, text) => return (name, String.ofList (Text.unifyNewlines text.toList))
  | none => throw .usage

/-- Lists the tokens of a text. -/
def listTokens (job : Job) (file source : String) : Shell Unit := do
  match (TokenStream.ofChars file source.toList).complete with
  | .ok ts =>
    ts.forM fun t => Shell.putLine job.env
      (toString t.span.startLine ++ ":" ++ toString t.span.startCol ++ "\t" ++ t.kind.name ++ "\t"
        ++ t.shown)
  | .error e => do
    job.reportError file source e
    throw .failed

/-- Shows the syntax tree of a text. -/
def viewTree (job : Job) (file source : String) : Shell Unit := do
  match Node.parse file source with
  | .ok n => n.outline.forM (Shell.putLine job.env)
  | .error e => do
    job.reportError file source e
    throw .failed

end Job

end Reckon
