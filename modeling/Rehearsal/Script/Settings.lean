import Rehearsal.Run.Suite
import Rehearsal.Script.Build
import Rehearsal.Script.Reader

/-! The parts of a run given as data: matchers, policies, trees of contexts, scenarios and
features. -/

namespace Rehearsal.Script
set_option autoImplicit false
open Rehearsal.Text

def coercerOf : String → Coercer
  | "upper" => fun s => .ok (.text (upper s))
  | "len" => fun s => .ok (.int s.length)
  | "none" => fun _ => .ok .null
  | "value_error" => fun s => .error (.ofKind "ValueError" ("bad value " ++ s))
  | "type_error" => fun _ => .error (.ofKind "TypeError" "bad type")
  | "runtime_error" => fun _ => .error (.ofKind "RuntimeError" "not wrapped")
  | _ => fun s => .ok (.text s)

def addCoercers (t : CoercionTable) (j : Json) : CoercionTable :=
  j.fields.foldl (fun t (name, kind) => t.withCoercer name (coercerOf (kind.str?.getD ""))) t

def readCoercions (j : Json) : CoercionTable :=
  let base :=
    match j.field? "only_coercers" with
    | some only => addCoercers CoercionTable.none only
    | none => CoercionTable.standard
  addCoercers base ((j.field? "coercers").getD .null)

def readMatcher (j : Json) : Matcher where
  coercions := readCoercions j
  ambiguity := if textField "ambiguity" "error" j == "error" then .error else .first
  autoCoerce := (valueField "auto_coerce" (.bool true) j).truthy

def readAftermath (name : String) (j : Json) : Aftermath :=
  if textField name "skip_rest" j == "skip_rest" then .skipRest else .goOn

def readPolicy (j : Json) : Policy where
  afterFailure := readAftermath "after_failure" j
  afterUndefined := readAftermath "after_undefined" j
  undefinedFails := textField "undefined_status" "pending" j == "failed"
  captureStack := (valueField "capture_stack" (.bool true) j).truthy

def stepSignature : Signature :=
  [⟨"self", .plain, false⟩, ⟨"text", .plain, false⟩, ⟨"line", .plain, true⟩,
    ⟨"keyword", .plain, true⟩, ⟨"argument", .plain, true⟩]

def readStepParts (j : Json) : Except Fault Step := do
  let named := j.fields.map fun (k, v) => (k, Value.ofJson v)
  match stepSignature.bind "ScenarioStep.__init__" [.null] named with
  | .error e => throw (.binding e)
  | .ok _ =>
    Step.make (valueField "text" .null j) (valueField "line" .null j)
      (valueField "keyword" .null j) (valueField "argument" .null j)

def readStep (j : Json) : Except Fault StepSource :=
  match j with
  | .obj _ => (readStepParts j).map .ready
  | j => .ok (.bare (Value.ofJson j))

def readScenario (j : Json) : Except Fault Scenario := do
  let steps ← (listField "steps" j).mapM readStep
  let name := textField "name" "" j
  let tags := valueField "tags" (.list []) j
  if flagField "of" j then Scenario.ofTexts name steps tags
  else Scenario.make name steps tags (valueField "line" .null j)

def readFeature (j : Json) : Except Fault Feature := do
  let scenarios ← (listField "scenarios" j).mapM readScenario
  Feature.make (textField "name" "" j) scenarios (valueField "tags" (.list []) j)
    (textField? "path" j)

namespace Host

/-- What a path stands for; a path that leads nowhere stands for nothing callable. -/
def factoryAt (h : Host) (path : String) : Factory :=
  h.factoryOf ((h.resolve? path).getD (.value .null))

def specOver (h : Host) (j : Json) (subcontexts : List ContextSpec) : Except Fault ContextSpec :=
  ContextSpec.make (h.factoryAt (textField "factory" behaviourName j))
    (valueField "alias" (.text rootAlias) j) (valueField "params" (.dict []) j)
    (valueField "capabilities" (.list []) j) subcontexts

/-- A declared context; those under it are made first. -/
def readSpec (h : Host) (j : Json) : Except Fault ContextSpec :=
  let subcontexts : List (Except Fault ContextSpec) :=
    match hs : j.field? "subcontexts" with
    | some ss => ss.items.attach.map fun ⟨s, hm⟩ =>
        have := sizeOf_field?_lt hs
        have := sizeOf_mem_items_le hm
        readSpec h s
    | none => []
  subcontexts.mapM id >>= specOver h j
termination_by sizeOf j

/-- The tree of a rehearsal; without one it is a single context that knows its place. -/
def readRoot (h : Host) : Option Json → Except Fault ContextSpec
  | some j => h.readSpec j
  | none => h.readSpec (.obj [])

end Host
end Rehearsal.Script
