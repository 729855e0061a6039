import Rehearsal.Definition
import Rehearsal.Scenario
import Rehearsal.Report.Timestamp

/-! Results of steps, hooks, scenarios, features and suites, and the events of a run. -/

namespace Rehearsal
set_option autoImplicit false

inductive Status where
  | passed
  | skipped
  | pending
  | failed
deriving DecidableEq, Repr

namespace Status

def all : List Status := [passed, skipped, pending, failed]

theorem mem_all (s : Status) : s ∈ all := by cases s <;> decide

def text : Status → String
  | passed => "passed"
  | skipped => "skipped"
  | pending => "pending"
  | failed => "failed"

def ofValue (v : Value) : Except Fault Status :=
  match v.text?.bind fun s => all.find? (·.text == s) with
  | some s => .ok s
  | none => .error (.notMember v.shown "StepStatus")

def severity : Status → Nat
  | passed => 0
  | skipped => 1
  | pending => 2
  | failed => 3

theorem severity_inj {a b : Status} (h : a.severity = b.severity) : a = b := by
  cases a <;> cases b <;> first | rfl | simp [severity] at h

/-- The more severe of two; the first where they are equal. -/
def worse (a b : Status) : Status := if a.severity < b.severity then b else a

/-- The most severe of several statuses and a default. -/
def worst (start : Status) (statuses : List Status) : Status := statuses.foldl worse start

theorem severity_worse (a b : Status) : (worse a b).severity = max a.severity b.severity := by
  cases a <;> cases b <;> rfl

@[simp] theorem worst_nil (start : Status) : worst start [] = start := rfl

@[simp] theorem worst_cons (start s : Status) (ss : List Status) :
    worst start (s :: ss) = worst (worse start s) ss := rfl

end Status

/-- Where the run of a scenario is. -/
inductive Stage where
  | initializing
  | runningBeforeHooks
  | runningStep
  | runningAfterHooks
  | finalized
  | aborted
deriving DecidableEq, Repr

namespace Stage

def all : List Stage :=
  [initializing, runningBeforeHooks, runningStep, runningAfterHooks, finalized, aborted]

theorem mem_all (s : Stage) : s ∈ all := by cases s <;> decide

def text : Stage → String
  | initializing => "initializing"
  | runningBeforeHooks => "running_before_hooks"
  | runningStep => "running_step"
  | runningAfterHooks => "running_after_hooks"
  | finalized => "finalized"
  | aborted => "aborted"

def ofValue (v : Value) : Except Fault Stage :=
  match v.text?.bind fun s => all.find? (·.text == s) with
  | some s => .ok s
  | none => .error (.notMember v.shown "ExecutorState")

end Stage

/-- What went wrong, and where. -/
structure ErrorInfo where
  kind : String
  message : String
  place : String
  /-- The calls that led there, if they are kept. -/
  stack : Option String
deriving DecidableEq, Repr

/-- What a report shows for the calls that led to a fault. -/
def unseenStack : String := "S"

def ErrorInfo.ofFault (f : Fault) (place : String) (withStack : Bool) : ErrorInfo :=
  ⟨f.kind, f.message, place, if withStack then some unseenStack else none⟩

/-- Time is not kept in a run; every duration is zero. -/
def noDuration : Value := .float 0

structure StepResult where
  scenarioId : String
  index : Int
  text : String
  status : Status
  line : Value
  pattern : Option String
  /-- Did no definition take the text? -/
  undefined : Bool
  error : Option ErrorInfo
  duration : Value

/-- The result of a step that was not started. -/
def StepResult.skipped (scenarioId : String) (index : Nat) (step : Step) : StepResult :=
  ⟨scenarioId, index, step.text, .skipped, step.line, none, false, none, noDuration⟩

structure HookResult where
  phase : HookPhase
  name : String
  status : Status
  scenarioId : Option String
  error : Option ErrorInfo
  duration : Value

structure ScenarioResult where
  scenarioId : String
  name : String
  feature : String
  status : Status
  stage : Stage
  steps : List StepResult
  hooks : List HookResult
  error : Option ErrorInfo
  tags : List String
  duration : Value

def ScenarioResult.afterScenarioHooks (r : ScenarioResult) : List HookResult :=
  r.hooks.filter (·.phase == .afterScenario)

structure FeatureResult where
  name : String
  status : Status
  scenarios : List ScenarioResult
  hooks : List HookResult
  path : Option String

structure SuiteResult where
  status : Status
  features : List FeatureResult
  hooks : List HookResult
  aborted : Bool
  strict : Bool

namespace SuiteResult

def scenarios (r : SuiteResult) : List ScenarioResult := r.features.flatMap (·.scenarios)

/-- Pending steps count against a strict run only, and an aborted run never ends well. -/
def exitCode (r : SuiteResult) : Nat :=
  if r.aborted || r.status == .failed then 1
  else if r.status == .pending && r.strict then 1
  else 0

end SuiteResult

/-- The run of a scenario comes to a stage. The time of the event is not known in a run. -/
structure StageEvent where
  scenarioId : String
  stage : Stage
  stepIndex : Option Int
  time : Option Timestamp

/-- What a sink receives. -/
inductive Record where
  | stage (e : StageEvent)
  | step (r : StepResult)
  | hook (r : HookResult)
  | scenario (r : ScenarioResult)
  | feature (r : FeatureResult)
  | suite (r : SuiteResult)
  /-- An error that is reported on its own. -/
  | error (e : ErrorInfo)

namespace Record

def isStage : Record → Bool
  | stage _ => true
  | _ => false

def kind : Record → String
  | stage _ => "phase"
  | step _ => "step"
  | hook _ => "hook"
  | scenario _ => "scenario"
  | feature _ => "feature"
  | suite _ => "suite"
  | error _ => "ErrorInfo"

end Record
end Rehearsal
