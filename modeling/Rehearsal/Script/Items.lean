import Rehearsal.Script.Build
import Rehearsal.Script.Reader

/-! Registry items given as data: definitions and hooks with the functions that they bind, and what
is neither. -/

namespace Rehearsal.Script
set_option autoImplicit false

/-- The parameters of a hook for which none are given. -/
def hookSignature (phase : String) : Signature :=
  if phase.endsWith "scenario" || phase.endsWith "step" then
    [⟨"ctx", .plain, false⟩, ⟨"scope", .plain, false⟩]
  else [⟨"scope", .plain, false⟩]

/-- The module of functions that stand in no module. -/
def stepsModule : String := "steps"

def functionField (name : String) (j : Json) : FunctionSpec :=
  match j.field? name with
  | some f => readFunction "fn" f
  | none => .named "fn"

/-- A location given by its module, name and line. -/
def readLocation (j : Json) : Option SourceLocation :=
  match (j.field? "location").map Json.items with
  | some [module, qualname, line] =>
    some ⟨(module.str?).getD "", (qualname.str?).getD "", line.int?⟩
  | some [module, qualname] => some ⟨(module.str?).getD "", (qualname.str?).getD "", none⟩
  | _ => none

def readPriority (j : Json) : Int := Discovery.priorityOf (valueField "priority" (.int 0) j)

def readTypes (j : Json) : List (Option String) :=
  (listField "types" j).map fun t => Discovery.typeOf (Value.ofJson t)

namespace Build

/-- Puts a function into the host and gives what callers see of it. -/
def callable (module : String) (spec : FunctionSpec) : Build Callable := do
  let id ← function ⟨module, spec.name⟩ spec
  match (← get).function? id with
  | some f => return f.callable
  | none => return Host.callableOf id module spec.name

def stepItem (j : Json) : Build Item := do
  let c ← callable stepsModule (functionField "func" j)
  let d ← StepDefinition.make (valueField "pattern" .null j) c (textField? "owner" j)
    (readPriority j) (valueField "keyword" (.text "step") j) (readTypes j) (readLocation j)
  return .step d

def hookItem (j : Json) : Build Item := do
  let spec := functionField "func" j
  let params := spec.params.getD (hookSignature (textField "phase" "" j))
  let c ← callable stepsModule { spec with params := some params }
  let h ← Hook.make (valueField "phase" .null j) c (textField? "owner" j)
    (valueField "tags" .null j) (readLocation j)
  return .hook h

def registryItem (j : Json) : Build Item :=
  match j.field? "step", j.field? "hook" with
  | some s, _ => stepItem s
  | none, some h => hookItem h
  | none, none => return .other (valueField "junk" .null j).kindName

def registryItems (js : List Json) : Build (List Item) := js.mapM registryItem

end Build
end Rehearsal.Script
