import Reckon.Bindings
import Reckon.Syntax.Node
import Reckon.Value.Builtin

/-!
# Frames and scopes

A frame holds the variables and functions of one level.  A scope is a chain of frames, the innermost
first; a name means what the nearest frame that has it says.  A function does not keep the frame it
was defined in: that is the frame it is found in when it is called, so `findFunction?` gives it with
the chain from there outwards.
-/

namespace Reckon

/-- Something that can be called. -/
inductive Function where
  /-- Defined by a program. -/
  | user (params : List String) (body : List Node) (bodySpan : Option Span)
  | native (builtin : Builtin)

namespace Function

/-- How many arguments the function takes. -/
def arity : Function → Nat
  | user params _ _ => params.length
  | native _ => Builtin.arity

/-- The parameters of a function defined by a program. -/
def params? : Function → Option (List String)
  | user params _ _ => some params
  | native _ => none

end Function

/-- One level of names. -/
structure Frame where
  name : String := ""
  vars : Bindings Value := []
  functions : Bindings Function := []

namespace Frame

/-- Binds a variable. -/
def assign (f : Frame) (name : String) (value : Value) : Frame :=
  { f with vars := f.vars.set name value }

/-- Defines a function, in place of one of the same name. -/
def define (f : Frame) (name : String) (function : Function) : Frame :=
  { f with functions := f.functions.set name function }

/-- Binds parameters to arguments, in order. -/
def bind (f : Frame) (params : List String) (args : List Value) : Frame :=
  (params.zip args).foldl (fun f p => f.assign p.1 p.2) f

theorem bind_name (f : Frame) (params : List String) (args : List Value) :
    (f.bind params args).name = f.name := by
  unfold bind
  induction params.zip args generalizing f with
  | nil => rfl
  | cons p rest ih => exact ih (f.assign p.1 p.2)

theorem bind_functions (f : Frame) (params : List String) (args : List Value) :
    (f.bind params args).functions = f.functions := by
  unfold bind
  induction params.zip args generalizing f with
  | nil => rfl
  | cons p rest ih => exact ih (f.assign p.1 p.2)

/-- The outermost frame of a program: the native functions and nothing else. -/
def global : Frame :=
  Builtin.all.foldl (fun f b => f.define b.name (.native b)) { name := "global" }

/-- Only native functions are there at the start. -/
theorem native_of_mem_global {p : String × Function} (h : p ∈ global.functions) :
    ∃ b, p.2 = .native b := by
  have key : ∀ (bs : List Builtin) (f : Frame), (∀ p ∈ f.functions, ∃ b, p.2 = .native b) →
      ∀ p ∈ (bs.foldl (fun f b => f.define b.name (.native b)) f).functions, ∃ b, p.2 = .native b := by
    intro bs
    induction bs with
    | nil => exact fun f hf => hf
    | cons b bs ih =>
      refine fun f hf => ih _ fun p hp => ?_
      rcases Bindings.mem_set hp with rfl | hp
      · exact ⟨b, rfl⟩
      · exact hf p hp
  exact key Builtin.all { name := "global" } (fun _ hp => absurd hp List.not_mem_nil) p h

/-- The functions that programs defined. -/
def userFunctions (f : Frame) : Bindings Function :=
  f.functions.filter fun p => p.2.params?.isSome

end Frame

/-- A chain of frames, the innermost first. -/
abbrev Scope := List Frame

namespace Scope

/-- What a variable means. -/
def findVariable? (s : Scope) (name : String) : Option Value :=
  s.findSome? fun f => f.vars.get? name

/-- What a function means, with the chain from the frame that has it outwards. -/
def findFunction? : Scope → String → Option (Function × Scope)
  | [], _ => none
  | f :: outer, name =>
    match f.functions.get? name with
    | some g => some (g, f :: outer)
    | none => findFunction? outer name

/-- The chain a function is found with is an end of the chain it was looked up in. -/
theorem findFunction?_suffix {s home : Scope} {name : String} {g : Function}
    (h : s.findFunction? name = some (g, home)) : home <:+ s := by
  induction s with
  | nil => cases h
  | cons f outer ih =>
    unfold findFunction? at h
    split at h
    · cases h
      exact List.suffix_refl _
    · exact (ih h).trans (List.suffix_cons f outer)

end Scope

end Reckon
