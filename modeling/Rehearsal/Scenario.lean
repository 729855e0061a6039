import Rehearsal.Tag

/-! Scenarios and features as a parser hands them over: lists of steps, with tags and lines. -/

namespace Rehearsal
set_option autoImplicit false
open Rehearsal.Text

/-- One line of a scenario. Its argument is a table or a docstring, null where there is none. -/
structure Step where
  text : String
  line : Value
  keyword : Value
  argument : Value

namespace Step

/-- The text of a step must not be blank. -/
def make (text line keyword argument : Value) : Except Fault Step :=
  match text with
  | .text s => if (strip s).isEmpty then .error .blankStep else .ok ⟨s, line, keyword, argument⟩
  | _ => .error .blankStep

/-- A step given by its text, or by its text and line. -/
def ofBare : Value → Except Fault Step
  | .text s => make (.text s) .null .null .null
  | v => do
    let (text, line) ← v.pair
    make text line .null .null

end Step

/-- A step as it is handed over: made already, or bare. -/
inductive StepSource where
  | ready (step : Step)
  | bare (v : Value)

def StepSource.step : StepSource → Except Fault Step
  | ready s => .ok s
  | bare v => Step.ofBare v

structure Scenario where
  name : String
  steps : List Step
  tags : List String
  line : Value

namespace Scenario

def tagsOf (v : Value) : Except Fault (List String) := return sortedSet (← Tag.setOfValue v)

def make (name : String) (steps : List StepSource) (tags line : Value) : Except Fault Scenario := do
  let steps ← steps.mapM StepSource.step
  return ⟨name, steps, ← tagsOf tags, line⟩

/-- A scenario of texts. Its tags are put into a set before they are normalized. -/
def ofTexts (name : String) (steps : List StepSource) (tags : Value) : Except Fault Scenario := do
  let steps ← steps.mapM StepSource.step
  return ⟨name, steps, ← tagsOf (.list (← tags.setItems)), .null⟩

end Scenario

structure Feature where
  name : String
  scenarios : List Scenario
  tags : List String
  path : Option String

namespace Feature

def make (name : String) (scenarios : List Scenario) (tags : Value) (path : Option String) :
    Except Fault Feature :=
  return ⟨name, scenarios, ← Scenario.tagsOf tags, path⟩

/-- What the ids of the scenarios begin with: the path, or the name where no path is known. -/
def location (f : Feature) : String :=
  match f.path with
  | some p => if p.isEmpty then f.name else p
  | none => f.name

/-- The id of a scenario: where its feature is, and its line or its position counted from one. Either number
is written out whatever its length; a bound that an interpreter sets on the digits is not kept. -/
def idOf (f : Feature) (index : Int) (s : Scenario) : String :=
  let place := if s.line.isNull then "#" ++ toString (index + 1) else s.line.display
  f.location ++ ":" ++ place

/-- The position that an index stands for; a negative one counts from the end. -/
def position? (size : Nat) (index : Int) : Option Nat :=
  let i := if index < 0 then index + size else index
  if 0 ≤ i ∧ i < size then some i.toNat else none

def scenarioId (f : Feature) (index : Int) : Except Fault String :=
  match (position? f.scenarios.length index).bind fun i => f.scenarios[i]? with
  | some s => .ok (f.idOf index s)
  | none => .error (.shape (.outOfRange "tuple"))

def effectiveTags (f : Feature) (s : Scenario) : List String := sortedSet (f.tags ++ s.tags)

def numbered (f : Feature) : List (Scenario × Nat) := f.scenarios.zipIdx

end Feature
end Rehearsal
