import Reckon.Console.Shell
import Reckon.Text.Blank

/-!
# Programs read line by line

Lines are gathered until one of them, blanks at its ends aside, is a sentinel; what has been gathered
is then run as a program.  All programs share a frame.  When the input ends, lines left over are run
too, unless they are all blank.
-/

namespace Reckon.Repl

/-- The file name that errors give. -/
def fileName : String := "<repl>"

/-- The texts among the sentinels; only lists and tables cannot be compared with at all. -/
def sentinelTexts (settings : Settings) : Except Crash (List (List Char)) :=
  if settings.sentinels.any fun
    | .array _ | .table _ => true
    | _ => false
  then .error .sentinel
  else .ok (settings.sentinels.filterMap fun
    | .string s => some s.toList
    | _ => none)

/-- The line ends a program. -/
def ends (sentinels : List (List Char)) (line : List Char) : Bool :=
  sentinels.contains (Text.trim line)

/-- The text of a program, given its lines. -/
def sourceOf (lines : List (List Char)) : String :=
  Text.joinLines (lines.map String.ofList)

/-- Where the reading stands. -/
structure State where
  /-- What the programs so far have left behind. -/
  machine : Machine := Program.fresh
  /-- The lines that wait for the end of their program, the latest first. -/
  gathered : List (List Char) := []

/-- Runs the lines that wait. -/
def flush (job : Job) (st : State) : Shell State := do
  let source := sourceOf st.gathered.reverse
  let run := Program.runIn [] fileName source { st.machine with log := [] }
  let _ ← job.showRun fileName source run
  return { machine := run.2 }

/-- Asks for a line, if there is someone to ask. -/
def prompt (job : Job) : Shell Unit :=
  if job.env.interactive then
    match job.settings.prompt.text? with
    | some text => Shell.put job.env text
    | none => throw (.crash .prompt)
  else pure ()

/-- Reads a line. -/
def feed (job : Job) (sentinels : List (List Char)) (st : State) (line : List Char) :
    Shell State := do
  let st ← if ends sentinels line then flush job st
    else pure { st with gathered := line :: st.gathered }
  prompt job
  return st

/-- The input has ended: lines that wait are run, unless they are all blank. -/
def finish (job : Job) (st : State) : Shell Unit := do
  if st.gathered.all Text.allBlank then return
  else
    let _ ← flush job st
    return

/-- The sentinels, and the first prompt. -/
def start (job : Job) : Shell (List (List Char)) := do
  match sentinelTexts job.settings with
  | .error c => throw (.crash c)
  | .ok sentinels =>
    job.reportEvents Program.fresh
    prompt job
    return sentinels

/-- The lines of an input. -/
def linesOf (input : String) : List (List Char) :=
  Text.newlineSplit (Text.unifyNewlines input.toList)

/-- Reads and runs programs until the input ends. -/
def run (job : Job) : Shell Unit := do
  let sentinels ← start job
  let st ← (linesOf job.env.input).foldlM (feed job sentinels) {}
  finish job st

end Reckon.Repl
