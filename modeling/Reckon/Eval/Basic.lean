import Reckon.Eval.Event
import Reckon.Scope.Frame

/-!
# Evaluation

`eval` walks a tree in a scope.  The scope has two parts: the innermost frame, which assignments and
definitions change and which is therefore state, and the frames around it, which nothing can change
and which are a plain argument.  A call runs its body in a fresh frame around which stand the frames
from the one the function was found in outwards; when it returns or fails the caller's frame is as it
was.

The state outlives a failure: what was assigned before it stays assigned.  An error without a place
gets the place of the innermost node around it that has one (`located`).

`eval` recurses on the depth still allowed.  Running out of it is a failure of its own kind.
-/

namespace Reckon

/-- The outcome of evaluating a node. -/
inductive Result where
  | nothing
  | single (value : Value)
  | compound (values : List Value)

namespace Result

/-- The kind of an outcome. -/
def kind : Result → ResultKind
  | nothing => .none
  | single _ => .single
  | compound _ => .compound

/-- The values of an outcome. -/
def values : Result → List Value
  | nothing => []
  | single v => [v]
  | compound vs => vs

/-- The value of an outcome that has to be one. -/
def value : Result → Except Failure Value
  | single v => .ok v
  | r => .error (.ofCause (.evaluation (.notSingle r.kind)))

end Result

/-- What changes during an evaluation. -/
structure Machine where
  /-- The innermost frame. -/
  frame : Frame
  /-- What happened, the latest first. -/
  log : List Event := []

/-- Evaluations change a machine and give a result or fail. -/
abbrev Eval := ExceptT Failure (StateM Machine)

namespace Eval

/-- Records an event. -/
def note (e : Event) : Eval Unit :=
  modify fun m => { m with log := e :: m.log }

/-- Gives an error without a place this one. -/
def located {α : Type} (span : Option Span) (x : Eval α) : Eval α :=
  ExceptT.adapt (Failure.locate span) x

/-- Runs in a frame of its own; the frame before is there again afterwards. -/
def inFrame {α : Type} (frame : Frame) (x : Eval α) : Eval α :=
  fun m =>
    let (r, m') := x { m with frame := frame }
    (r, { m' with frame := m.frame })

/-- A computation that changes nothing. -/
def ofExcept {α : Type} (x : Except Failure α) : Eval α :=
  ExceptT.mk (pure x)

/-- Fails with a cause at a place. -/
def failAt {α : Type} (cause : Cause) (span : Option Span) : Eval α :=
  throw (.placed cause span)

/-- The value of a node that has to have one. -/
def valueOf (ev : Node → Eval Result) (node : Node) : Eval Value := do
  match ← ev node with
  | .single v => return v
  | _ => failAt (.evaluation .noValue) node.span

/-- Calls a function by name with the values of its arguments; `ev` evaluates a body in the frames
around it. -/
def call (ev : Scope → Node → Eval Result) (outer : Scope) (name : String) (args : List Value)
    (span : Option Span) : Eval Value := do
  let m ← get
  match Scope.findFunction? (m.frame :: outer) name with
  | none => failAt (.undefinedFunction name) span
  | some (function, home) =>
    if args.length = function.arity then
      match function, args with
      | .native b, [v] => do
        note (.nativeCalled name)
        ofExcept (b.apply v)
      | .native _, _ => failAt (.arityMismatch name function.arity args.length) span
      | .user params body bodySpan, args => do
        note (.scopeOpened name home.length)
        note (.called name params.length home.length)
        let frame := Frame.bind { name := name } params args
        let result ← inFrame frame (ev home (.block body bodySpan))
        match result.values.getLast? with
        | some v => return v
        | none => failAt (.evaluation (.nothingReturned name)) bodySpan
    else failAt (.arityMismatch name function.arity args.length) span

/-- A matrix cell. -/
def cell (ev : Node → Eval Result) (node : Node) : Eval Float := do
  let v ← valueOf ev node
  match v.number? with
  | some x => return x
  | none => failAt (.evaluation (.elementKind v.kind)) node.span

/-- One step of evaluation: what a node does, given how the nodes in it are evaluated. -/
def step (ev : Scope → Node → Eval Result) (outer : Scope) : Node → Eval Result
  | .literal v _ => return .single v
  | .var name span => do
    let m ← get
    match Scope.findVariable? (m.frame :: outer) name with
    | some v => return .single v
    | none => failAt (.undeclaredVariable name) span
  | .binary left op right _ => do
    let x ← valueOf (ev outer) left
    let y ← valueOf (ev outer) right
    return .single (← ofExcept (op.apply x y))
  | .unary op operand _ => do
    let x ← valueOf (ev outer) operand
    return .single (← ofExcept (op.apply x))
  | .ternary condition yes no _ => do
    match ← valueOf (ev outer) condition with
    | .boolean b => return .single (← valueOf (ev outer) (if b then yes else no))
    | v => failAt (.evaluation (.conditionKind v.kind)) condition.span
  | .matrix rows _ => do
    let cells ← rows.mapM fun row => row.mapM (cell (ev outer))
    return .single (← ofExcept (Builtin.shaped (Matrix.ofRows? cells)))
  | .call name args span => do
    let vs ← args.mapM (valueOf (ev outer))
    return .single (← call ev outer name vs span)
  | .assign target value _ => do
    let v ← valueOf (ev outer) value
    modify fun m => { m with frame := m.frame.assign target.name v }
    return .single v
  | .block children _ => do
    let results ← children.mapM (ev outer)
    return .compound (results.flatMap Result.values)
  | .define name params body bodySpan _ => do
    let m ← get
    note (.defined name params.length m.frame.name)
    modify fun m =>
      { m with frame := m.frame.define name (.user (params.map Identifier.name) body bodySpan) }
    return .nothing
  | .empty _ => return .nothing

/-- Evaluates a node in the frames `outer` around the machine's frame, at most so deep. -/
def eval : Nat → Scope → Node → Eval Result
  | 0, _, _ => throw (.mishap .tooDeep)
  | depth + 1, outer, node => located node.span (step (eval depth) outer node)

/-- How deeply evaluations may be nested.  The number stands in for a budget of 20000 frames on the
stack, of which a level of calls takes about fifteen: programs that stay far below the budget, and
those that recurse without end, fare as they do with it.  Between these the exact depth is not
modelled; nor is it in parsing, which takes from the same budget and is not bounded here. -/
def maxDepth : Nat := 6400

/-- Evaluates a node. -/
def node (outer : Scope) (n : Node) : Eval Result :=
  eval maxDepth outer n

/-- Calls a function by name from outside a program. -/
def invoke (outer : Scope) (name : String) (args : List Value) : Eval Value :=
  call (eval maxDepth) outer name args none

end Eval

end Reckon
