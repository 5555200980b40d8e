import Reckon.Console.Repl

/-!
# The command line

A command line is options, a command and its arguments, in this order.  What is wrong with the options
and the command's name is found before settings are read, what is wrong with the command's arguments
after that.
-/

namespace Reckon

/-- The commands. -/
inductive Command where
  | run
  | eval
  | repl
  | tokens
  | view
deriving Repr, DecidableEq

namespace Command

/-- The command of a name. -/
def ofName? : String → Option Command
  | "run" => some run
  | "eval" => some eval
  | "repl" => some repl
  | "tokens" => some tokens
  | "view" => some view
  | _ => none

/-- Carries out a command with its arguments. -/
def execute (c : Command) (job : Job) (args : List String) : Shell Unit :=
  match c, args with
  | .eval, [expression] => job.runAlone "<eval>" expression
  | .repl, [] => Repl.run job
  | .run, [file] => do
    let (name, source) ← job.openFile file
    job.runAlone name source
  | .tokens, [file] => do
    let (name, source) ← job.openFile file
    job.listTokens name source
  | .view, [file] => do
    let (name, source) ← job.openFile file
    job.viewTree name source
  | _, _ => throw .usage

end Command

namespace CommandLine

/-- The version that is shown. -/
def version : String := "0.1.0"

/-- The options before a command. -/
structure Options where
  version : Bool := false
  verbose : Bool := false
  noColor : Bool := false
deriving Repr, DecidableEq

/-- The argument is meant as an option. -/
def isOption (arg : String) : Bool :=
  arg.startsWith "-" && arg.length > 1

/-- Takes options off the front of the arguments; a double dash ends them. -/
def options? : Options → List String → Option (Options × List String)
  | o, [] => some (o, [])
  | o, arg :: rest =>
    if arg = "--" then some (o, rest)
    else if isOption arg then
      match arg with
      | "--version" => options? { o with version := true } rest
      | "--verbose" => options? { o with verbose := true } rest
      | "--no-color" => options? { o with noColor := true } rest
      | _ => none
    else some (o, arg :: rest)

/-- The arguments of a command, none of which takes options; a double dash lets the rest look like
options. -/
def positionals? : List String → Option (List String)
  | [] => some []
  | arg :: rest =>
    if arg = "--" then some rest
    else if isOption arg then none
    else (positionals? rest).map (arg :: ·)

/-- The value or an early end. -/
def orEnd {α : Type} (ending : Ending) : Option α → Shell α
  | some x => pure x
  | none => throw ending

/-- A command that is to be carried out. -/
structure Plan where
  command : Command
  job : Job
  args : List String

/-- What a command line asks for; nothing is left to do once the version has been shown. -/
def plan (env : Environment) (args : List String) : Shell (Option Plan) := do
  let (o, rest) ← orEnd .usage (options? {} args)
  if o.version then
    Shell.putLine env ("mathscript, version " ++ version)
    return none
  else
    let (name, args) ← orEnd .usage (rest.head?.map (·, rest.drop 1))
    let command ← orEnd .usage (Command.ofName? name)
    match Settings.discover env.files "." with
    | .error f => throw (.crash (.settings f))
    | .ok s =>
      let s := if o.noColor then { s with color := false } else s
      let args ← orEnd .usage (positionals? args)
      return some ⟨command, { env := env, settings := s, verbose := o.verbose }, args⟩

/-- Carries out a command line. -/
def execute (env : Environment) (args : List String) : Shell Unit := do
  match ← plan env args with
  | some p => p.command.execute p.job p.args
  | none => return

/-- What a command line did: its exit status, what it wrote, and what broke it off. -/
structure Outcome where
  exit : Nat
  report : Report
  ending : Option Ending

/-- The exit status of an ending. -/
def exitOf : Option Ending → Nat
  | none => 0
  | some .usage => 2
  | some .failed => 1
  | some (.crash _) => 1

/-- Runs a command line. -/
def run (env : Environment) (args : List String) : Outcome :=
  let (r, report) := execute env args {}
  let ending := match r with
    | .ok _ => none
    | .error e => some e
  ⟨exitOf ending, report, ending⟩

end CommandLine

end Reckon
