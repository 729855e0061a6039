import Rehearsal.Json.Writer
import Rehearsal.Report.Datum

/-! Reports as JSON: results by their fields, members of enumerations by their texts, sets of tags
sorted, and what has no form of its own by its text. -/

namespace Rehearsal
set_option autoImplicit false

/-- Fields put into an object: one that is there keeps its place and takes the new value. -/
def Json.putField (fields : List (String × Json)) (name : String) (j : Json) :
    List (String × Json) :=
  if fields.any (·.1 == name) then
    fields.map fun f => if f.1 == name then (f.1, j) else f
  else fields ++ [(name, j)]

/-- An object of fields in order, of which later ones of one name count. -/
def Json.ofFields (fields : List (String × Json)) : Json :=
  .obj (fields.foldl (fun acc f => putField acc f.1 f.2) [])

mutual

def Value.toJson : Value → Json
  | .null => .null
  | .bool b => .bool b
  | .int n => .int n
  | .float x => .float x
  | .text s => .str s
  | .list items => .arr (Value.itemsToJson items)
  | .dict entries => Json.ofFields (Value.entriesToJson entries)
  | .object className _ => .str className

def Value.itemsToJson : List Value → List Json
  | [] => []
  | v :: vs => v.toJson :: Value.itemsToJson vs

def Value.entriesToJson : List (Value × Value) → List (String × Json)
  | [] => []
  | (k, v) :: es => (k.display, v.toJson) :: Value.entriesToJson es

end

namespace Report

def errorFields (e : ErrorInfo) : List (String × Json) :=
  [("type", .str e.kind), ("message", .str e.message), ("where", .str e.place),
    ("stack", Json.ofOption .str e.stack)]

def ofError (e : ErrorInfo) : Json := .obj (errorFields e)

/-- What a line of a log says of an error. -/
def summary (e : ErrorInfo) : Json :=
  .obj [("type", .str e.kind), ("message", .str e.message), ("where", .str e.place)]

def ofTags (tags : List String) : Json := Json.strs (sortedSet tags)

/-- The text that stands for a time that is not known. -/
def unknownTime : String := "T"

def ofTime (t : Option Timestamp) : Json := .str ((t.map Timestamp.text).getD unknownTime)

def stageFields (e : StageEvent) : List (String × Json) :=
  [("scenario_id", .str e.scenarioId), ("state", .str e.stage.text),
    ("step_index", Json.ofOption .int e.stepIndex), ("at", ofTime e.time)]

def stepFields (r : StepResult) : List (String × Json) :=
  [("scenario_id", .str r.scenarioId), ("index", .int r.index), ("text", .str r.text),
    ("status", .str r.status.text), ("line", r.line.toJson),
    ("pattern", Json.ofOption .str r.pattern), ("undefined", .bool r.undefined),
    ("error", Json.ofOption ofError r.error), ("duration_ms", r.duration.toJson)]

def hookFields (r : HookResult) : List (String × Json) :=
  [("phase", .str r.phase.text), ("name", .str r.name), ("status", .str r.status.text),
    ("scenario_id", Json.ofOption .str r.scenarioId), ("error", Json.ofOption ofError r.error),
    ("duration_ms", r.duration.toJson)]

def ofHooks (hooks : List HookResult) : Json := Json.ofList (fun r => .obj (hookFields r)) hooks

def scenarioFields (r : ScenarioResult) : List (String × Json) :=
  [("scenario_id", .str r.scenarioId), ("name", .str r.name), ("feature", .str r.feature),
    ("status", .str r.status.text), ("state", .str r.stage.text),
    ("steps", Json.ofList (fun r => .obj (stepFields r)) r.steps), ("hooks", ofHooks r.hooks),
    ("error", Json.ofOption ofError r.error), ("tags", ofTags r.tags),
    ("duration_ms", r.duration.toJson)]

def featureFields (r : FeatureResult) : List (String × Json) :=
  [("name", .str r.name), ("status", .str r.status.text),
    ("scenarios", Json.ofList (fun r => .obj (scenarioFields r)) r.scenarios),
    ("hooks", ofHooks r.hooks), ("path", Json.ofOption .str r.path)]

def suiteFields (r : SuiteResult) : List (String × Json) :=
  [("status", .str r.status.text),
    ("features", Json.ofList (fun r => .obj (featureFields r)) r.features),
    ("hooks", ofHooks r.hooks), ("aborted", .bool r.aborted), ("strict", .bool r.strict)]

def fields : Record → List (String × Json)
  | .stage e => stageFields e
  | .step r => stepFields r
  | .hook r => hookFields r
  | .scenario r => scenarioFields r
  | .feature r => featureFields r
  | .suite r => suiteFields r
  | .error e => errorFields e

/-- A record as a sink writes it: its kind first, and the exit code last where there is one. -/
def ofRecord (r : Record) : Json :=
  let last :=
    match r with
    | .suite s => [("exit_code", Json.int s.exitCode)]
    | _ => []
  .obj (("kind", .str r.kind) :: fields r ++ last)

mutual

def ofDatum : Datum → Json
  | .plain v => v.toJson
  | .list items => .arr (ofData items)
  | .tuple items => .arr (ofData items)
  | .dict entries => Json.ofFields (ofEntries entries)
  | .status s => .str s.text
  | .stage s => .str s.text
  | .phase p => .str p.text
  | .tags names => ofTags names
  | .path s => .str (Datum.cleanPath s)
  | .time t => .str t.text
  | .decimal s => .str s
  | .record r => .obj (fields r)
  | .error e => ofError e
  | .fault f => .str f.message

def ofData : List Datum → List Json
  | [] => []
  | d :: ds => ofDatum d :: ofData ds

def ofEntries : List (Datum × Datum) → List (String × Json)
  | [] => []
  | (k, d) :: es => (k.display, ofDatum d) :: ofEntries es

end

/-- The name of a field whose key is left as it is. -/
def rawKey : Datum → String
  | .plain .null => "null"
  | .plain (.bool b) => if b then "true" else "false"
  | .plain (.float x) => Json.numberLayout.float x
  | .status s => s.text
  | .stage s => s.text
  | .phase p => p.text
  | d => d.display

mutual

/-- A datum left as it is: only what JSON has no form for is given by its text. -/
def raw : Datum → Json
  | .list items => .arr (rawItems items)
  | .tuple items => .arr (rawItems items)
  | .dict entries => .obj (rawEntries entries)
  | .tags names => .str (Datum.setText names)
  | .time t => .str t.display
  | .record r => .str (Datum.recordText r)
  | .error e => .str (Datum.errorText e)
  | d => ofDatum d

def rawItems : List Datum → List Json
  | [] => []
  | d :: ds => raw d :: rawItems ds

def rawEntries : List (Datum × Datum) → List (String × Json)
  | [] => []
  | (k, d) :: es => (rawKey k, raw d) :: rawEntries es

end

end Report
end Rehearsal
