/-!
# Dates and times

A settings file can hold a date, a time of day, or both; with both there can be a distance from
universal time.  On its own a moment is shown in the usual notation (`text`), inside a list or a table
by its parts, as a call that would build it (`call`).
-/

namespace Reckon.Toml

/-- A day of the calendar. -/
structure Date where
  year : Nat
  month : Nat
  day : Nat
deriving Repr, DecidableEq

/-- A time of day. -/
structure Time where
  hour : Nat
  minute : Nat
  second : Nat
  /-- Millionths of a second. -/
  micro : Nat
deriving Repr, DecidableEq

/-- A date, a time, or both. -/
inductive Moment where
  | date (d : Date)
  | time (t : Time)
  /-- Both, with the minutes by which local time is ahead of universal time, if they are known. -/
  | both (d : Date) (t : Time) (ahead : Option Int)
deriving Repr, DecidableEq

/-! ## The calendar -/

/-- Every fourth year is a leap year, of full centuries only every fourth. -/
def isLeapYear (year : Nat) : Bool :=
  year % 4 == 0 && (year % 100 != 0 || year % 400 == 0)

/-- How many days a month has. -/
def daysIn (year month : Nat) : Nat :=
  match month with
  | 2 => if isLeapYear year then 29 else 28
  | 4 | 6 | 9 | 11 => 30
  | _ => 31

/-- The calendar has this day; it begins with the year one. -/
def Date.isReal (d : Date) : Bool :=
  decide (1 ≤ d.year) && decide (d.day ≤ daysIn d.year d.month)

/-! ## In the usual notation -/

/-- A number with zeros before it, up to `width` digits. -/
def padded (width n : Nat) : String :=
  let ds := Nat.toDigits 10 n
  String.ofList (List.replicate (width - ds.length) '0' ++ ds)

/-- Year, month and day. -/
def Date.text (d : Date) : String :=
  padded 4 d.year ++ "-" ++ padded 2 d.month ++ "-" ++ padded 2 d.day

/-- Hours, minutes and seconds, and their fraction if there is one. -/
def Time.text (t : Time) : String :=
  padded 2 t.hour ++ ":" ++ padded 2 t.minute ++ ":" ++ padded 2 t.second
    ++ (if t.micro = 0 then "" else "." ++ padded 6 t.micro)

/-- A distance from universal time, as hours and minutes with a sign. -/
def aheadText (minutes : Int) : String :=
  (if minutes < 0 then "-" else "+") ++ padded 2 (minutes.natAbs / 60) ++ ":"
    ++ padded 2 (minutes.natAbs % 60)

/-- A moment on its own. -/
def Moment.text : Moment → String
  | date d => d.text
  | time t => t.text
  | both d t ahead => d.text ++ " " ++ t.text ++ (ahead.map aheadText).getD ""

/-! ## By its parts -/

/-- A call of a function with the texts of its arguments. -/
def callText (function : String) (args : List String) : String :=
  function ++ "(" ++ ", ".intercalate args ++ ")"

/-- Year, month and day. -/
def Date.parts (d : Date) : List Nat :=
  [d.year, d.month, d.day]

/-- Hours and minutes, and seconds and their fraction unless they are zero from there on. -/
def Time.parts (t : Time) : List Nat :=
  if t.micro ≠ 0 then [t.hour, t.minute, t.second, t.micro]
  else if t.second ≠ 0 then [t.hour, t.minute, t.second]
  else [t.hour, t.minute]

/-- How many seconds a day has. -/
def secondsPerDay : Int := 86400

/-- A duration, as whole days and the seconds beyond them; parts that are zero are left out. -/
def durationCall (seconds : Int) : String :=
  let days := Int.fdiv seconds secondsPerDay
  let rest := Int.fmod seconds secondsPerDay
  callText "datetime.timedelta"
    ((if days = 0 then [] else ["days=" ++ toString days])
      ++ (if rest = 0 then [] else ["seconds=" ++ toString rest]))

/-- A distance from universal time. -/
def aheadCall (minutes : Int) : String :=
  if minutes = 0 then "datetime.timezone.utc"
  else callText "datetime.timezone" [durationCall (60 * minutes)]

/-- A moment inside another value. -/
def Moment.call : Moment → String
  | date d => callText "datetime.date" (d.parts.map toString)
  | time t => callText "datetime.time" (t.parts.map toString)
  | both d t ahead =>
    callText "datetime.datetime" ((d.parts ++ t.parts).map toString
      ++ (ahead.map fun a => "tzinfo=" ++ aheadCall a).toList)

end Reckon.Toml
