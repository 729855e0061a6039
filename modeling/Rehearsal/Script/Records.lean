import Rehearsal.Report.Datum
import Rehearsal.Script.Exception
import Rehearsal.Script.Reader

/-! Records and other data of reports, read from JSON. An object with one field whose name begins
with a dollar sign stands for a datum that JSON has no form for. -/

namespace Rehearsal.Script
set_option autoImplicit false

def readError (j : Json) : ErrorInfo :=
  ⟨textField "type" "" j, textField "message" "" j, textField "where" "" j, textField? "stack" j⟩

def readErrorField (j : Json) : Option ErrorInfo :=
  match j.field? "error" with
  | some e => if e.isNull then none else some (readError e)
  | none => none

def readStatus (j : Json) : Except Fault Status := Status.ofValue (valueField "status" .null j)

def readDuration (j : Json) : Value := valueField "duration_ms" noDuration j

def readStageEvent (j : Json) : Except Fault StageEvent := do
  let stage ← Stage.ofValue (valueField "state" .null j)
  let time ←
    match textField? "at" j with
    | some s => (Timestamp.parse s).map some
    | none => pure none
  return ⟨textField "scenario_id" "" j, stage, (j.field? "step_index").bind Json.int?, time⟩

def readStepResult (j : Json) : Except Fault StepResult := do
  let status ← readStatus j
  return ⟨textField "scenario_id" "" j, ((j.field? "index").bind Json.int?).getD 0,
    textField "text" "" j, status, valueField "line" .null j, textField? "pattern" j,
    flagField "undefined" j, readErrorField j, readDuration j⟩

def readHookResult (j : Json) : Except Fault HookResult := do
  let phase ← HookPhase.ofValue (valueField "phase" .null j)
  let status ← readStatus j
  return ⟨phase, textField "name" "" j, status, textField? "scenario_id" j, readErrorField j,
    readDuration j⟩

def readScenarioResult (j : Json) : Except Fault ScenarioResult := do
  let status ← readStatus j
  let stage ← Stage.ofValue (valueField "state" .null j)
  let steps ← (listField "steps" j).mapM readStepResult
  let hooks ← (listField "hooks" j).mapM readHookResult
  return ⟨textField "scenario_id" "" j, textField "name" "" j, textField "feature" "" j, status,
    stage, steps, hooks, readErrorField j, (listField "tags" j).filterMap Json.str?,
    readDuration j⟩

def readFeatureResult (j : Json) : Except Fault FeatureResult := do
  let status ← readStatus j
  let scenarios ← (listField "scenarios" j).mapM readScenarioResult
  let hooks ← (listField "hooks" j).mapM readHookResult
  return ⟨textField "name" "" j, status, scenarios, hooks, textField? "path" j⟩

def readSuiteResult (j : Json) : Except Fault SuiteResult := do
  let status ← readStatus j
  let features ← (listField "features" j).mapM readFeatureResult
  let hooks ← (listField "hooks" j).mapM readHookResult
  return ⟨status, features, hooks, flagField "aborted" j, flagField "strict" j⟩

def readRecord (j : Json) : Except Fault Record :=
  match textField "kind" "" j with
  | "phase" => (readStageEvent j).map .stage
  | "step" => (readStepResult j).map .step
  | "hook" => (readHookResult j).map .hook
  | "scenario" => (readScenarioResult j).map .scenario
  | "feature" => (readFeatureResult j).map .feature
  | "suite" => (readSuiteResult j).map .suite
  | _ => .ok (.error (readError j))

def readAtom (name : String) (j : Json) : Except Fault Datum :=
  match name with
  | "$status" => (Status.ofValue (Value.ofJson j)).map .status
  | "$phase" => (HookPhase.ofValue (Value.ofJson j)).map .phase
  | "$state" => (Stage.ofValue (Value.ofJson j)).map .stage
  | "$tags" => .ok (.tags (j.items.map fun t => (Value.ofJson t).display))
  | "$path" => .ok (.path (j.str?.getD ""))
  | "$time" => (Timestamp.parse (j.str?.getD "")).map .time
  | "$float" =>
    match Number.readFloat (j.str?.getD "") with
    | .ok x => .ok (.plain (.float x))
    | .error e => .error (.number e)
  | "$decimal" => .ok (.decimal (j.str?.getD ""))
  | "$record" => (readRecord j).map .record
  | "$error" => .ok (.error (readError j))
  | "$exc" =>
    .ok (.fault (faultOf (textField "type" "Exception" j) ((j.field? "message").map Value.ofJson)))
  | name => .ok (.dict [(.text name, .plain (Value.ofJson j))])

mutual

def readDatum : Json → Except Fault Datum
  | .arr items => (readData items).map .list
  | .obj [("$tuple", .arr items)] => (readData items).map .tuple
  | .obj [("$pairs", .arr pairs)] => (readPairs pairs).map fun ps => .dict (Datum.ofPairs ps)
  | .obj [(name, j)] =>
    if name.startsWith "$" then readAtom name j
    else (readDatum j).map fun d => .dict [(.text name, d)]
  | .obj fields => (readEntries fields).map fun es => .dict (Datum.ofPairs es)
  | j => .ok (.plain (Value.ofJson j))

def readData : List Json → Except Fault (List Datum)
  | [] => .ok []
  | j :: js => do
    let d ← readDatum j
    return d :: (← readData js)

def readPairs : List Json → Except Fault (List (Datum × Datum))
  | [] => .ok []
  | .arr [k, j] :: js => do
    let key ← readDatum k
    let d ← readDatum j
    return (key, d) :: (← readPairs js)
  | _ :: js => readPairs js

def readEntries : List (String × Json) → Except Fault (List (Datum × Datum))
  | [] => .ok []
  | (name, j) :: fields => do
    let d ← readDatum j
    return (.text name, d) :: (← readEntries fields)

end

def readFields (j : Json) : Except Fault (List (String × Datum)) :=
  j.fields.mapM fun (name, d) => (readDatum d).map fun d => (name, d)

end Rehearsal.Script
