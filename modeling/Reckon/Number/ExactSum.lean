/-!
# Sums with one rounding

`exactSum` adds doubles as if without rounding and rounds once at the end.  The running sum is kept
as an expansion: doubles of increasing magnitude whose exact sum it is and no two of which overlap.
Adding a double to it passes the double through the list, leaving the rounding error of each addition
behind.
-/

namespace Reckon.Number

/-- Why a sum has no value. -/
inductive SumFault where
  /-- A sum of finite terms became too large on the way. -/
  | overflow
  /-- Infinities of both signs were added. -/
  | opposed
deriving Repr, DecidableEq

/-- The rounded sum of two doubles, and what rounding took away. -/
def twoSum (x y : Float) : Float × Float :=
  let (x, y) := if x.abs < y.abs then (y, x) else (x, y)
  let high := x + y
  (high, y - (high - x))

/-- Passes `x` through an expansion: the errors left behind, and what arrives at the end. -/
def grow (x : Float) : List Float → List Float × Float
  | [] => ([], x)
  | y :: rest =>
    let (high, low) := twoSum x y
    let (errors, top) := grow high rest
    (if low == 0 then errors else low :: errors, top)

/-- A sum in progress: the expansion of its finite terms since the last one that was not finite, the
sum of the infinities, and the sum of all terms that are not finite. -/
structure RunningSum where
  partials : List Float := []
  infinities : Float := 0
  special : Float := 0

/-- Adds a term. -/
def RunningSum.add (s : RunningSum) (x : Float) : Except SumFault RunningSum :=
  let (errors, top) := grow x s.partials
  if top == 0 then .ok { s with partials := errors }
  else if top.isFinite then .ok { s with partials := errors ++ [top] }
  else if x.isFinite then .error .overflow
  else .ok {
    partials := []
    infinities := if x.isInf then s.infinities + x else s.infinities
    special := s.special + x }

/-- Whether two doubles are both positive or both negative. -/
def sameSign (x y : Float) : Bool :=
  (x < 0 && y < 0) || (0 < x && 0 < y)

/-- Rounds an expansion, given from its largest member `high` down.  The first addition that loses
something decides; when it lost exactly half a unit, the next member says which way to go. -/
def collapse (high : Float) : List Float → Float
  | [] => high
  | y :: rest =>
    let sum := high + y
    let low := y - (sum - high)
    if low == 0 then collapse sum rest
    else
      match rest with
      | z :: _ =>
        if sameSign low z then
          let twice := low * 2
          let moved := sum + twice
          if twice == moved - sum then moved else sum
        else sum
      | [] => sum

/-- The rounded total. -/
def RunningSum.total (s : RunningSum) : Except SumFault Float :=
  if s.special == 0 then
    match s.partials.reverse with
    | [] => .ok 0
    | high :: rest => .ok (collapse high rest)
  else if s.infinities.isNaN then .error .opposed
  else .ok s.special

/-- The sum of a list of doubles, rounded once. -/
def exactSum (xs : List Float) : Except SumFault Float := do
  let s ← xs.foldlM RunningSum.add {}
  s.total

end Reckon.Number
