import Rehearsal.Outcome
import Rehearsal.Value.Display
import Rehearsal.Value.Equality

/-! Data of reports: plain values, and beside them what a run knows of, nested in lists and
dictionaries in any way. -/

namespace Rehearsal
set_option autoImplicit false
open Rehearsal.Text

inductive Datum where
  | plain (v : Value)
  | list (items : List Datum)
  | tuple (items : List Datum)
  | dict (entries : List (Datum × Datum))
  | status (s : Status)
  | stage (s : Stage)
  | phase (p : HookPhase)
  | tags (names : List String)
  | path (text : String)
  | time (t : Timestamp)
  | decimal (text : String)
  | record (r : Record)
  | error (e : ErrorInfo)
  | fault (f : Fault)

namespace Datum

def isNull : Datum → Bool
  | plain v => v.isNull
  | _ => false

def text (s : String) : Datum := plain (.text s)

def nat (n : Nat) : Datum := plain (.int n)

def texts (xs : List String) : Datum := list (xs.map text)

def pieces : List Char → List (List Char)
  | [] => [[]]
  | c :: cs =>
    if c == '/' then [] :: pieces cs
    else
      match pieces cs with
      | p :: ps => (c :: p) :: ps
      | [] => [[c]]

/-- A path without empty pieces and without pieces that are a single point. -/
def cleanPath (s : String) : String :=
  let kept := ((pieces s.toList).filter fun p => !p.isEmpty && p != ['.']).map String.ofList
  let root :=
    match s.toList with
    | '/' :: '/' :: '/' :: _ => "/"
    | '/' :: '/' :: _ => "//"
    | '/' :: _ => "/"
    | _ => ""
  let joined := root ++ String.intercalate "/" kept
  if joined.isEmpty then "." else joined

/-- The name that a member of an enumeration has in texts. -/
def memberName (enumeration text : String) : String :=
  enumeration ++ "." ++ String.ofList (text.toList.map Char.toUpper)

def setText (names : List String) : String :=
  if names.isEmpty then "frozenset()"
  else "frozenset(\x7b" ++ String.intercalate ", " (names.map quoted) ++ "\x7d)"

/-- A member of an enumeration as a part of another text. -/
def memberText (enumeration text : String) : String :=
  "<" ++ memberName enumeration text ++ ": " ++ quoted text ++ ">"

def tupleText : List String → String
  | [s] => "(" ++ s ++ ",)"
  | items => "(" ++ String.intercalate ", " items ++ ")"

/-- A result as a part of another text: what it is, with the texts of its fields. -/
def fieldsText (name : String) (fields : List (String × String)) : String :=
  name ++ "(" ++ String.intercalate ", " (fields.map fun f => f.1 ++ "=" ++ f.2) ++ ")"

def optionText {α : Type} (f : α → String) (x : Option α) : String := (x.map f).getD "None"

def errorText (e : ErrorInfo) : String :=
  fieldsText "ErrorInfo" [("type", quoted e.kind), ("message", quoted e.message),
    ("where", quoted e.place), ("stack", optionText quoted e.stack)]

def flagText (b : Bool) : String := Value.shown (.bool b)

def stageEventText (e : StageEvent) : String :=
  fieldsText "PhaseEvent" [("scenario_id", quoted e.scenarioId),
    ("state", memberText "ExecutorState" e.stage.text),
    ("step_index", optionText toString e.stepIndex), ("at", optionText Timestamp.shown e.time)]

def stepText (r : StepResult) : String :=
  fieldsText "StepResult" [("scenario_id", quoted r.scenarioId), ("index", toString r.index),
    ("text", quoted r.text), ("status", memberText "StepStatus" r.status.text),
    ("line", r.line.shown), ("pattern", optionText quoted r.pattern),
    ("undefined", flagText r.undefined), ("error", optionText errorText r.error),
    ("duration_ms", r.duration.shown)]

def hookText (r : HookResult) : String :=
  fieldsText "HookResult" [("phase", memberText "HookPhase" r.phase.text), ("name", quoted r.name),
    ("status", memberText "StepStatus" r.status.text),
    ("scenario_id", optionText quoted r.scenarioId), ("error", optionText errorText r.error),
    ("duration_ms", r.duration.shown)]

def scenarioText (r : ScenarioResult) : String :=
  fieldsText "ScenarioResult" [("scenario_id", quoted r.scenarioId), ("name", quoted r.name),
    ("feature", quoted r.feature), ("status", memberText "StepStatus" r.status.text),
    ("state", memberText "ExecutorState" r.stage.text), ("steps", tupleText (r.steps.map stepText)),
    ("hooks", tupleText (r.hooks.map hookText)), ("error", optionText errorText r.error),
    ("tags", setText r.tags), ("duration_ms", r.duration.shown)]

def featureText (r : FeatureResult) : String :=
  fieldsText "FeatureResult" [("name", quoted r.name),
    ("status", memberText "StepStatus" r.status.text),
    ("scenarios", tupleText (r.scenarios.map scenarioText)),
    ("hooks", tupleText (r.hooks.map hookText)), ("path", optionText quoted r.path)]

def suiteText (r : SuiteResult) : String :=
  fieldsText "SuiteResult" [("status", memberText "StepStatus" r.status.text),
    ("features", tupleText (r.features.map featureText)),
    ("hooks", tupleText (r.hooks.map hookText)), ("aborted", flagText r.aborted),
    ("strict", flagText r.strict)]

def recordText : Record → String
  | .stage e => stageEventText e
  | .step r => stepText r
  | .hook r => hookText r
  | .scenario r => scenarioText r
  | .feature r => featureText r
  | .suite r => suiteText r
  | .error e => errorText e

mutual

/-- The text of a datum as a part of another. -/
def shown : Datum → String
  | plain v => v.shown
  | list items => "[" ++ String.intercalate ", " (shownItems items) ++ "]"
  | tuple items => tupleText (shownItems items)
  | dict entries => "\x7b" ++ String.intercalate ", " (shownEntries entries) ++ "\x7d"
  | status s => memberText "StepStatus" s.text
  | stage s => memberText "ExecutorState" s.text
  | phase p => memberText "HookPhase" p.text
  | tags names => setText names
  | path s => "PosixPath(" ++ quoted (cleanPath s) ++ ")"
  | time t => t.shown
  | decimal s => "Decimal(" ++ quoted s ++ ")"
  | record r => recordText r
  | error e => errorText e
  | fault f => f.kind ++ "(" ++ quoted f.message ++ ")"

def shownItems : List Datum → List String
  | [] => []
  | d :: ds => shown d :: shownItems ds

def shownEntries : List (Datum × Datum) → List String
  | [] => []
  | (k, d) :: es => (shown k ++ ": " ++ shown d) :: shownEntries es

end

/-- The text of a datum on its own, as which it stands for a key. -/
def display : Datum → String
  | plain v => v.display
  | status s => memberName "StepStatus" s.text
  | stage s => memberName "ExecutorState" s.text
  | phase p => memberName "HookPhase" p.text
  | path s => cleanPath s
  | time t => t.display
  | decimal s => s
  | fault f => f.message
  | d => shown d

/-- Are two keys one key of a dictionary? Members of an enumeration are their texts. -/
def sameKey (a b : Datum) : Bool := atom a == atom b && eq a b
where
  atom : Datum → Bool
    | plain _ | status _ | stage _ | phase _ => true
    | _ => false
  value : Datum → Value
    | plain v => v
    | status s => .text s.text
    | stage s => .text s.text
    | phase p => .text p.text
    | _ => .null
  eq (a b : Datum) : Bool :=
    if atom a then (value a).same (value b) else shown a == shown b

/-- A dictionary made of pairs: a later one with the key of an earlier one gives it its value. -/
def ofPairs (pairs : List (Datum × Datum)) : List (Datum × Datum) :=
  pairs.foldl
    (fun acc (k, d) =>
      if acc.any fun e => sameKey e.1 k then
        acc.map fun e => if sameKey e.1 k then (e.1, d) else e
      else acc ++ [(k, d)]) []

end Datum
end Rehearsal
