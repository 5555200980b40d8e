import Reckon.Console.Command

/-!
# The program

Looks at the files and the input that a command line can see, carries it out, and writes what it
reports.  Lines that end a program are answered at once, so that someone can type them.
-/

namespace Reckon.Main

/-- A tree with what stands under a name. -/
def look (t : FileTree) (name : String) : IO FileTree := do
  let path := t.resolve name
  try
    return t.write path (← IO.FS.readFile name)
  catch _ =>
    if ← ((← IO.currentDir) / name).isDir then
      return { t with directories := path :: t.directories }
    else return t

/-- The name of a settings file in a directory. -/
def settingsIn (dir : Path) : String :=
  "/" ++ "/".intercalate (dir ++ [Settings.fileName])

/-- The settings files in the working directory and above, and what the arguments name. -/
def gather (args : List String) : IO FileTree := do
  let here := (FileTree.names (← IO.currentDir).toString).filter (· ≠ "")
  let candidates := (List.range (here.length + 1)).map fun n => settingsIn (here.take n)
  (candidates ++ args.filter (· ≠ "")).foldlM look { here := here }

/-- Carries something out and writes what it reports. -/
def perform {α : Type} (x : Shell α) : IO (Except Ending α) := do
  let (r, report) := x {}
  let out ← IO.getStdout
  out.putStr report.out
  out.flush
  (← IO.getStderr).putStr report.err
  return r

/-- The rest of an input. -/
partial def readAll (input : IO.FS.Stream) (sofar : String) : IO String := do
  let line ← input.getLine
  if line.isEmpty then return sofar else readAll input (sofar ++ line)

/-- Reads lines until the input ends, and answers each. -/
partial def converse (job : Job) (sentinels : List (List Char)) (input : IO.FS.Stream)
    (st : Repl.State) : IO (Except Ending Unit) := do
  let text ← input.getLine
  if text.isEmpty then perform (Repl.finish job st)
  else
    match ← perform ((Repl.linesOf text).foldlM (Repl.feed job sentinels) st) with
    | .ok st => converse job sentinels input st
    | .error e => return .error e

/-- Carries out a plan. -/
def carryOut (p : CommandLine.Plan) (input : IO.FS.Stream) : IO (Except Ending Unit) := do
  match p.command, p.args with
  | .repl, [] =>
    match ← perform (Repl.start p.job) with
    | .ok sentinels => converse p.job sentinels input {}
    | .error e => return .error e
  | command, args =>
    let text ← if args.contains "-" then readAll input "" else pure ""
    perform (command.execute { p.job with env := { p.job.env with input := text } } args)

/-- Says why a command ended, where it has not said so itself. -/
def explain : Ending → IO Unit
  | .usage => IO.eprintln "usage: [--version] [--verbose] [--no-color] run|eval|repl|tokens|view [ARG]"
  | .failed => pure ()
  | .crash _ => IO.eprintln "error: the command cannot go on"

/-- Carries out a command line; the exit status. -/
def start (args : List String) : IO UInt32 := do
  let input ← IO.getStdin
  let env : Environment :=
    { files := ← gather args
      interactive := ← input.isTty
      styled := ← (← IO.getStdout).isTty }
  let r ← match ← perform (CommandLine.plan env args) with
    | .ok (some p) => carryOut p input
    | .ok none => pure (.ok ())
    | .error e => pure (.error e)
  match r with
  | .ok _ => return 0
  | .error e =>
    explain e
    return (CommandLine.exitOf (some e)).toUInt32

end Reckon.Main

/-- Carries out a command line. -/
def main (args : List String) : IO UInt32 :=
  Reckon.Main.start args
