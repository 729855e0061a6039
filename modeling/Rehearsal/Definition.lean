import Rehearsal.Callable
import Rehearsal.Pattern.Basic
import Rehearsal.Tag

/-! Step definitions and hooks: what a callable is bound to. A definition that cannot be used is
refused when it is made. -/

namespace Rehearsal
set_option autoImplicit false

inductive HookPhase where
  | beforeSuite
  | beforeFeature
  | beforeScenario
  | beforeStep
  | afterStep
  | afterScenario
  | afterFeature
  | afterSuite
deriving DecidableEq, Repr

namespace HookPhase

/-- Every phase, in the order in which a run comes to them. -/
def all : List HookPhase :=
  [beforeSuite, beforeFeature, beforeScenario, beforeStep, afterStep, afterScenario, afterFeature,
    afterSuite]

theorem mem_all (p : HookPhase) : p ∈ all := by cases p <;> decide

def text : HookPhase → String
  | beforeSuite => "before_suite"
  | beforeFeature => "before_feature"
  | beforeScenario => "before_scenario"
  | beforeStep => "before_step"
  | afterStep => "after_step"
  | afterScenario => "after_scenario"
  | afterFeature => "after_feature"
  | afterSuite => "after_suite"

def ofText? (s : String) : Option HookPhase := all.find? (·.text == s)

def ofValue (v : Value) : Except Fault HookPhase :=
  match v.text?.bind ofText? with
  | some p => .ok p
  | none => .error (.notMember v.shown "HookPhase")

def isBefore : HookPhase → Bool
  | beforeSuite | beforeFeature | beforeScenario | beforeStep => true
  | _ => false

/-- Scenario and step hooks run on a context; suite and feature hooks receive the scope alone. -/
def instanceBound : HookPhase → Bool
  | beforeScenario | beforeStep | afterStep | afterScenario => true
  | _ => false

end HookPhase

def stepKeywords : List String := ["given", "when", "then", "step"]

/-- Can the callable take `count` positional arguments, with up to `extra` more? -/
def ensureAccepts (c : Callable) (count : Nat) (subject : String) (extra : Nat) :
    Except DefinitionError Unit :=
  if !c.isCallable then .error (.notCallable subject)
  else
    match c.signature with
    | none => .ok ()
    | some s =>
      if !s.takesPositional count then .error (.tooFewParameters subject count)
      else if s.required.any (·.role == .keywordOnly) then .error (.keywordOnly subject)
      else if count + extra < s.required.length then
        .error (.tooManyRequired subject s.required.length (count + extra))
      else .ok ()

structure StepDefinition where
  pattern : Pattern
  callable : Callable
  owner : Option String
  priority : Int
  keyword : String
  types : List (Option String)
  location : SourceLocation

namespace StepDefinition

def source (d : StepDefinition) : String := d.pattern.source

def arity (d : StepDefinition) : Nat := d.pattern.arity

def key (d : StepDefinition) : String × Nat × Int := (d.source, d.arity, d.priority)

def checkKeyword (keyword : Value) : Except Fault String :=
  if !keyword.hashable then .error (.shape (.unhashable keyword.kindName))
  else
    match keyword with
    | .text s =>
      if stepKeywords.contains s then .ok s else .error (.definition (.unknownKeyword s))
    | v => .error (.definition (.unknownKeyword v.display))

def compilePattern (source : String) : Except Fault Pattern :=
  match Pattern.compile source with
  | .ok p => .ok p
  | .error e =>
    if e.isMalformed then .error (.definition (.badPattern source e))
    else .error (.pattern source e)

/-- The context comes first, then one argument per group, and a table or docstring may follow. -/
def make (pattern : Value) (callable : Callable) (owner : Option String) (priority : Int)
    (keyword : Value) (types : List (Option String)) (location : Option SourceLocation) :
    Except Fault StepDefinition :=
  match pattern with
  | .text source =>
    if source.isEmpty then .error (.definition .blankPattern)
    else do
      let keyword ← checkKeyword keyword
      let compiled ← compilePattern source
      if compiled.arity < types.length then
        throw (.definition (.tooManyTypes source types.length compiled.arity))
      match ensureAccepts callable (1 + compiled.arity) ("step '" ++ source ++ "'") 1 with
      | .error e => throw (.definition e)
      | .ok _ =>
        return ⟨compiled, callable, owner, priority, keyword, types,
          location.getD callable.location⟩
  | _ => .error (.definition .blankPattern)

end StepDefinition

structure Hook where
  phase : HookPhase
  callable : Callable
  owner : Option String
  tags : Option TagFilter
  location : SourceLocation
deriving DecidableEq, Repr

namespace Hook

def name (h : Hook) : String := h.location.qualname

/-- How many arguments a hook of a phase receives. -/
def argumentCount (phase : HookPhase) : Nat := if phase.instanceBound then 2 else 1

def tagsOf : Value → Except Fault (Option TagFilter)
  | .null => .ok none
  | .text s => (TagFilter.parse s).map some
  | v => .error (.shape (.noMember v.kindName "source"))

def make (phase : Value) (callable : Callable) (owner : Option String) (tags : Value)
    (location : Option SourceLocation) : Except Fault Hook := do
  let phase ← HookPhase.ofValue phase
  let tags ← tagsOf tags
  let location := location.getD callable.location
  let subject := phase.text ++ " hook " ++ location.qualname
  match ensureAccepts callable (argumentCount phase) subject 0 with
  | .error e => throw (.definition e)
  | .ok _ => return ⟨phase, callable, owner, tags, location⟩

/-- A hook without a filter applies everywhere; without a set of tags nothing is filtered. -/
def appliesTo (h : Hook) (tags : Option (List String)) : Except Fault Bool :=
  match h.tags, tags with
  | some filter, some tags => filter.accepts tags
  | _, _ => .ok true

end Hook
end Rehearsal
