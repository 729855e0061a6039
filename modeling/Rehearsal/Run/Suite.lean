import Rehearsal.Run.Scenario

/-! The run of a suite: features in order, each with its scenarios, and hooks around the suite and
around each feature. The scenarios of a feature run in order, or in a pool, where they may overlap;
what comes after them waits for all. -/

namespace Rehearsal
set_option autoImplicit false

abbrev Job := Routine (Except Fault ScenarioResult)

inductive SuiteRequest where
  | single (r : Request)
  /-- Run jobs to their ends, in any interleaving. -/
  | pool (jobs : List Job)
  /-- Wait on without end. -/
  | stall

/-- A pool answers with the ends of its jobs, in the order in which they were given. Who stalls gets no
answer. -/
def SuiteRequest.Answer : SuiteRequest → Type
  | single r => r.Answer
  | pool _ => List (Except Fault ScenarioResult)
  | stall => Empty

abbrev SuiteRoutine (α : Type) := Program SuiteRequest.Answer α

def Program.inSuite {α : Type} : Routine α → SuiteRoutine α
  | .done a => .done a
  | .ask r next => .ask (.single r) fun x => (next x).inSuite

structure Suite where
  registry : Registry
  root : ContextSpec
  matcher : Matcher
  ties : TieNotice
  policy : Policy
  logger : Logger
  /-- Is there a sink for records? -/
  hasSink : Bool
  workers : Nat
  strict : Bool

namespace Suite

/-- A suite needs a worker; its registry is frozen. -/
def make (s : Suite) : Except Fault Suite :=
  if s.workers == 0 then .error .workers else .ok { s with registry := s.registry.freeze }

def executor (s : Suite) : Executor where
  registry := s.registry
  root := s.root
  matcher := s.matcher
  ties := s.ties
  policy := s.policy
  logger := s.logger
  emits := s.hasSink
  watches := true

/-- What a run of a suite does: it keeps the results of the features that are over. -/
abbrev Action := ExceptT Fault (StateT (List FeatureResult) (Program SuiteRequest.Answer))

namespace Action

variable {α : Type}

def perform (r : Request) : Action r.Answer :=
  ExceptT.lift (StateT.lift (Program.request (R := SuiteRequest) (.single r)))

def pool (jobs : List Job) : Action (List (Except Fault ScenarioResult)) :=
  ExceptT.lift (StateT.lift (Program.request (R := SuiteRequest) (.pool jobs)))

def aborted : Action Bool := perform .aborted

def proceed : Option Fault → Action Unit
  | some f => throw f
  | none => pure ()

def settle : Except Fault α → Action α
  | .ok a => pure a
  | .error f => throw f

def observe (x : Action α) : Action (Except Fault α) :=
  ExceptT.mk (x.run >>= fun r => pure (.ok r))

def job (j : Job) : Action ScenarioResult := do
  settle (← ExceptT.lift (StateT.lift j.inSuite))

def stall : Action α :=
  ExceptT.lift (StateT.lift (Program.request (R := SuiteRequest) .stall >>= fun x : Empty => x.elim))

/-- Takes the end of a job of a pool. An interrupt counts as one of the wait for the job: the job is waited
for again, and as it keeps its end, the wait never does. The abort that is requested at each turn of that
wait is not among the requests; jobs that are not over may be told of it, as of any other. -/
def collect : Except Fault α → Action α
  | .ok a => pure a
  | .error f => if f.family == .interrupt then stall else throw f

end Action

variable (s : Suite)

def emit (r : Record) : Action Unit :=
  if s.hasSink then do Action.proceed (← Action.perform (.emit r)) else pure ()

def log (level : LogLevel) (message : String) (fields : List (String × Datum)) : Action Unit :=
  if s.logger.passes level then do
    Action.proceed (← Action.perform (.log ⟨level, message, none, fields⟩))
  else pure ()

/-- How a call of a hook counts: every fault but an exit is a failure, an interrupt requests an
abort besides. -/
def invoke (callable : Callable) (scope : Scope) (place : String) :
    Action (Status × Option ErrorInfo) := do
  match ← Action.perform (.call callable [.scope scope]) with
  | none => return (.passed, none)
  | some f =>
    match f.family with
    | .pending | .ordinary =>
      return (.failed, some (ErrorInfo.ofFault f place s.policy.captureStack))
    | .interrupt =>
      Action.perform (.abort (some "interrupted"))
      return (.failed, some (ErrorInfo.ofFault f place false))
    | .exit => throw f

def runHook (scope : Scope) (h : Hook) : Action HookResult := do
  let (status, error) ← s.invoke h.callable scope h.name
  let result : HookResult := ⟨h.phase, h.name, status, none, error, noDuration⟩
  s.emit (.hook result)
  if status == .failed then
    s.log .error "hook failed"
      [("phase", .phase h.phase), ("hook", .text h.name),
        ("error", (error.map Datum.error).getD (.plain .null))]
  return result

/-- Runs hooks in order. After a failure no hook follows in a phase that comes before its part of
the run. -/
def runHookList (scope : Scope) : List Hook → Action (List HookResult)
  | [] => return []
  | h :: hs => do
    let result ← s.runHook scope h
    if result.status == .failed && h.phase.isBefore then return [result]
    else return result :: (← runHookList scope hs)

def runHooks (phase : HookPhase) (scope : Scope) : Action (List HookResult) := do
  s.runHookList scope (← Action.settle (s.registry.lookup phase scope.tags))

def allWell (results : List HookResult) : Bool := results.all (·.status != .failed)

/-- The result of a scenario that was not started. -/
def notRun (f : Feature) (c : Scenario) (index : Nat) : ScenarioResult where
  scenarioId := f.idOf index c
  name := c.name
  feature := f.name
  status := .skipped
  stage := .aborted
  steps := c.steps.zipIdx.map fun (step, i) => .skipped (f.idOf index c) i step
  hooks := []
  error := none
  tags := f.effectiveTags c
  duration := noDuration

/-- The run of one scenario of a feature, which does not start after an abort. -/
def scenarioJob (f : Feature) (c : Scenario) (index : Nat) : Job := do
  if ← Routine.aborted then
    let result := notRun f c index
    if s.hasSink then
      match ← Routine.emit (.scenario result) with
      | some fault => return .error fault
      | none => return .ok result
    else return .ok result
  else s.executor.run c (some f) (some (f.idOf index c))

def skipScenarios (f : Feature) : List (Scenario × Nat) → Action (List ScenarioResult)
  | [] => return []
  | (c, index) :: rest => do
    let result := notRun f c index
    s.emit (.scenario result)
    return result :: (← skipScenarios f rest)

def runInOrder (f : Feature) : List (Scenario × Nat) → Action (List ScenarioResult)
  | [] => return []
  | (c, index) :: rest => do
    let result ← Action.job (s.scenarioJob f c index)
    return result :: (← runInOrder f rest)

/-- The results of a pool, unless a job of it ended in a fault. -/
def runInPool (f : Feature) : Action (List ScenarioResult) := do
  let ends ← Action.pool (f.numbered.map fun (c, index) => s.scenarioJob f c index)
  ends.mapM Action.collect

def runScenarios (f : Feature) : Action (List ScenarioResult) :=
  if s.workers > 1 then s.runInPool f else s.runInOrder f f.numbered

def featureStatus (scenarios : List ScenarioResult) (hooks : List HookResult) : Status :=
  Status.worst .passed (scenarios.map (·.status) ++ hooks.map (·.status))

def featureResult (f : Feature) (scenarios : List ScenarioResult) (hooks : List HookResult) :
    FeatureResult :=
  ⟨f.name, featureStatus scenarios hooks, scenarios, hooks, f.path⟩

/-- Hooks before a feature, its scenarios unless one of them failed, and the hooks after it. -/
def runFeature (f : Feature) : Action FeatureResult := do
  let hooks ← s.runHooks .beforeFeature (.feature f none)
  let scenarios ←
    if allWell hooks then s.runScenarios f else s.skipScenarios f f.numbered
  let soFar := featureResult f scenarios hooks
  let after ← s.runHooks .afterFeature (.feature f (some soFar))
  let result := featureResult f scenarios (hooks ++ after)
  s.emit (.feature result)
  return result

def skipFeature (f : Feature) : Action FeatureResult := do
  let scenarios ← s.skipScenarios f f.numbered
  let result : FeatureResult := ⟨f.name, .skipped, scenarios, [], f.path⟩
  s.emit (.feature result)
  return result

/-- Runs features; one that comes after an abort, or in a suite that is not ready, is skipped. -/
def runFeatures (ready : Bool) : List Feature → Action Unit
  | [] => pure ()
  | f :: fs => do
    let skipped ← if ready then Action.aborted else pure true
    let result ← if skipped then s.skipFeature f else s.runFeature f
    modify (· ++ [result])
    runFeatures ready fs

def skipFeatures : List Feature → Action Unit
  | [] => pure ()
  | f :: fs => do
    let result ← s.skipFeature f
    modify (· ++ [result])
    skipFeatures fs

/-- The result that the features so far and the hooks of the suite make. -/
def result (hooks : List HookResult) : Action SuiteResult := do
  let features ← get
  let aborted ← Action.aborted
  return ⟨Status.worst .passed (features.map (·.status) ++ hooks.map (·.status)), features, hooks,
    aborted, s.strict⟩

/-- After an interrupt from outside the calls, the features that have no result are skipped. -/
def recover (features : List Feature) : Except Fault Unit → Action (Except Fault Unit)
  | .ok _ => return .ok ()
  | .error f =>
    if f.family == .interrupt then
      Action.observe do
        Action.perform (.abort (some "interrupted"))
        let done := (← get).length
        s.log .warning "interrupted" [("features_done", .nat done)]
        s.skipFeatures (features.drop done)
    else return .error f

/-- The whole run. The hooks after the suite run however the features ended. -/
def runAll (features : List Feature) : Action SuiteResult := do
  Action.perform .resetAbort
  s.log .info "suite started"
    [("features", .nat features.length), ("workers", .nat s.workers)]
  let hooks ← s.runHooks .beforeSuite (.suite features none)
  let outcome ← s.recover features (← Action.observe (s.runFeatures (allWell hooks) features))
  let soFar ← s.result hooks
  let after ← s.runHooks .afterSuite (.suite features (some soFar))
  Action.settle outcome
  let result ← s.result (hooks ++ after)
  s.emit (.suite result)
  if s.hasSink then Action.proceed (← Action.perform .flush)
  s.log .info "suite finished"
    [("status", .status result.status), ("aborted", .plain (.bool result.aborted)),
      ("exit_code", .nat result.exitCode)]
  return result

/-- Runs features. A run forgets an abort that was requested before it. -/
def run (features : List Feature) : SuiteRoutine (Except Fault SuiteResult) := do
  return (← ((s.runAll features).run.run [])).1

end Suite
end Rehearsal
