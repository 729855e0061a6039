import Rehearsal.Matching
import Rehearsal.Registry
import Rehearsal.Run.Composition

/-! The run of one scenario: its contexts are composed, hooks run before, the steps one after the
other, and hooks after, whatever happened before them. -/

namespace Rehearsal
set_option autoImplicit false

/-- What happens to the rest of a scenario after a step. -/
inductive Aftermath where
  | skipRest
  | goOn
deriving DecidableEq, Repr

/-- What a failed or an undefined step costs its scenario. -/
structure Policy where
  afterFailure : Aftermath
  afterUndefined : Aftermath
  undefinedFails : Bool
  captureStack : Bool
deriving DecidableEq, Repr

def Policy.standard : Policy := ⟨.skipRest, .skipRest, false, true⟩

/-- Who is told that a tie between definitions was settled by order. -/
inductive TieNotice where
  | nobody
  | caller
  | log
deriving DecidableEq, Repr

structure Executor where
  registry : Registry
  root : ContextSpec
  matcher : Matcher
  ties : TieNotice
  policy : Policy
  logger : Logger
  /-- Does anyone take the records? -/
  emits : Bool
  /-- Is there a signal to look at? -/
  watches : Bool

/-- What the run of a scenario has come to. -/
structure Ledger where
  steps : List StepResult
  hooks : List HookResult
  /-- The first error that was noted, which the scenario reports as its cause. -/
  firstError : Option ErrorInfo
  interrupted : Bool

namespace Ledger

def empty : Ledger := ⟨[], [], none, false⟩

def noteError (l : Ledger) (e : Option ErrorInfo) : Ledger :=
  { l with firstError := l.firstError.or e }

def addHook (l : Ledger) (r : HookResult) : Ledger :=
  noteError { l with hooks := l.hooks ++ [r] } r.error

def addStep (l : Ledger) (r : StepResult) : Ledger :=
  noteError { l with steps := l.steps ++ [r] } (if r.status == .failed then r.error else none)

def lastFailure (l : Ledger) : Option ErrorInfo :=
  (l.hooks.reverse.find? (·.status == .failed)).bind (·.error)

def statuses (l : Ledger) : List Status := l.hooks.map (·.status) ++ l.steps.map (·.status)

end Ledger

/-- A scenario on its way through a run. -/
structure Case where
  id : String
  scenario : Scenario
  feature : Option Feature

namespace Case

/-- A scenario to be run, under an id of its own unless it goes by its name. -/
def named (scenario : Scenario) (feature : Option Feature) (id : Option String) : Case :=
  ⟨(id.filter fun s => !s.isEmpty).getD scenario.name, scenario, feature⟩

def tags (c : Case) : List String :=
  match c.feature with
  | some f => f.effectiveTags c.scenario
  | none => c.scenario.tags

def scope (c : Case) (result : Option ScenarioResult) : ScenarioScope :=
  ⟨c.id, c.scenario, c.feature, c.tags, result⟩

/-- The result that a ledger makes. A scenario that was aborted after an error failed. -/
def result (c : Case) (l : Ledger) (stage : Stage) : ScenarioResult where
  scenarioId := c.id
  name := c.scenario.name
  feature := (c.feature.map (·.name)).getD ""
  status :=
    if l.firstError.isSome && stage == .aborted then .failed
    else Status.worst .passed l.statuses
  stage := stage
  steps := l.steps
  hooks := l.hooks
  error := l.firstError
  tags := c.tags
  duration := noDuration

end Case

/-- Every definition with the context that it runs on. -/
structure DispatchTable where
  arena : Arena
  definitions : List StepDefinition
  targets : List Instance

namespace DispatchTable

def build (r : Registry) (a : Arena) : Except Fault DispatchTable := do
  let targets ← r.definitions.mapM fun d => a.ownerInstance d.owner
  return ⟨a, r.definitions, targets⟩

end DispatchTable

namespace Executor

/-- What a run of a scenario does: it keeps a ledger. -/
abbrev Action := Effect Ledger

variable (x : Executor)

def emit (r : Record) : Action Unit :=
  if x.emits then do Effect.proceed (← Effect.perform (.emit r)) else pure ()

def transition (c : Case) (stage : Stage) (stepIndex : Option Int) : Action Unit :=
  x.emit (.stage ⟨c.id, stage, stepIndex, none⟩)

def log (level : LogLevel) (message : String) (fields : List (String × Datum)) : Action Unit :=
  Effect.log x.logger level message fields

def stopped : Action Bool := do
  if (← get).interrupted then return true
  else if x.watches then Effect.aborted
  else return false

def interrupt (c : Case) (place : String) : Action Unit := do
  modify fun l => { l with interrupted := true }
  if x.watches then Effect.perform (.abort (some "interrupted"))
  x.log .warning "interrupted" [("scenario", .text c.id), ("where", .text place)]

/-- How a call counts. A pending step is not a failure, a fault is contained, an interrupt stops the
scenario, and an exit goes through. -/
def invoke (c : Case) (callable : Callable) (args : List Argument) (place : String) :
    Action (Status × Option ErrorInfo) := do
  match ← Effect.perform (.call callable args) with
  | none => return (.passed, none)
  | some f =>
    match f.family with
    | .pending => return (.pending, some (ErrorInfo.ofFault f place false))
    | .ordinary =>
      x.log .debug (place ++ " raised " ++ f.kind ++ ": " ++ f.message) [("scenario", .text c.id)]
      return (.failed, some (ErrorInfo.ofFault f place x.policy.captureStack))
    | .interrupt =>
      x.interrupt c place
      return (.failed, some (ErrorInfo.ofFault f place false))
    | .exit => throw f

def recordHook (r : HookResult) : Action Unit := do
  modify fun l => l.addHook r
  x.emit (.hook r)

def runHook (c : Case) (a : Arena) (scope : Scope) (h : Hook) : Action Status := do
  let target ← Effect.settle (a.ownerInstance h.owner)
  let (status, error) ← x.invoke c h.callable [.value target.value, .scope scope] h.name
  x.recordHook ⟨h.phase, h.name, status, some c.id, error, noDuration⟩
  return status

/-- Runs hooks in order; with `halt` none follows one that failed. Did all go well? -/
def runHookList (c : Case) (a : Arena) (scope : Scope) (halt : Bool) : List Hook → Action Bool
  | [] => return true
  | h :: hs => do
    let status ← x.runHook c a scope h
    if status == .failed then
      if !halt then
        let _ ← runHookList c a scope halt hs
      return false
    else runHookList c a scope halt hs

/-- Runs the hooks of a phase that apply and whose contexts are there. -/
def runHooks (phase : HookPhase) (c : Case) (a : Arena) (scope : Scope) (halt : Bool) :
    Action Bool := do
  let hooks ← Effect.settle (x.registry.lookup phase scope.tags)
  x.runHookList c a scope halt (hooks.filter fun h => a.binds h.owner)

/-- How a step went, before the hooks after it. -/
structure Verdict where
  status : Status
  pattern : Option String
  undefined : Bool
  error : Option ErrorInfo

/-- Faults of matching that count as the failure of the step. A coercer may raise one of them itself. -/
def isMatchFailure (f : Fault) : Bool := f.isA .ambiguousMatch || f.isA .argumentCoercion

def tell (text : String) (patterns : List String) : Action Unit :=
  if patterns.isEmpty then pure ()
  else
    match x.ties with
    | .nobody => pure ()
    | .caller => do Effect.proceed (← Effect.perform (.tie text patterns))
    | .log =>
      x.log .warning "ambiguous step resolved by registration order"
        [("step", .text text), ("patterns", .texts patterns)]

def undefinedVerdict (c : Case) (s : Step) : Action Verdict := do
  x.log .info "undefined step"
    [("scenario", .text c.id), ("step", .text s.text), ("line", .plain s.line)]
  return ⟨if x.policy.undefinedFails then .failed else .pending, none, true, none⟩

/-- The arguments of a step: its context, the captures, and its table or docstring. -/
def stepArguments (target : Instance) (captures : List Value) (argument : Value) :
    List Argument :=
  .value target.value :: captures.map .value ++
    (if argument.isNull then [] else [.value argument])

/-- Finds the definition of a step and calls it. -/
def dispatch (c : Case) (t : DispatchTable) (s : Step) : Action Verdict := do
  let matched := x.matcher.matchText s.text t.definitions
  x.tell s.text matched.tied
  match matched.result with
  | .error f =>
    if isMatchFailure f then
      return ⟨.failed, none, false, some (ErrorInfo.ofFault f "matcher" false)⟩
    else throw f
  | .ok none => x.undefinedVerdict c s
  | .ok (some m) =>
    match t.targets[m.order]? with
    | none => throw (.shape (.outOfRange "tuple"))
    | some target =>
      let args := stepArguments target m.args s.argument
      let (status, error) ←
        x.invoke c m.definition.callable args m.definition.location.display
      return ⟨status, some m.definition.source, false, error⟩

def stepResult (c : Case) (index : Nat) (s : Step) (v : Verdict) : StepResult :=
  ⟨c.id, index, s.text, v.status, s.line, v.pattern, v.undefined, v.error, noDuration⟩

def recordStep (r : StepResult) : Action Unit := do
  modify fun l => l.addStep r
  x.emit (.step r)

def skipStep (c : Case) (index : Nat) (s : Step) : Action Unit :=
  x.recordStep (.skipped c.id index s)

def stepScope (c : Case) (index : Nat) (s : Step) (result : Option StepResult) : Scope :=
  .step ⟨c.scope none, s, index, result⟩

/-- Hooks before a step, and the step unless one of them failed. -/
def attempt (c : Case) (t : DispatchTable) (index : Nat) (s : Step) : Action Verdict := do
  if ← x.runHooks .beforeStep c t.arena (stepScope c index s none) true then
    x.dispatch c t s
  else return ⟨.failed, none, false, ((← get).hooks.getLast?).bind (·.error)⟩

/-- The hooks after a step, which it fails with if it had not failed before. -/
def review (c : Case) (t : DispatchTable) (index : Nat) (s : Step) (v : Verdict) :
    Action Verdict := do
  let shown := stepScope c index s (some (stepResult c index s v))
  if !(← x.runHooks .afterStep c t.arena shown false) && v.status != .failed then
    return { v with status := .failed, error := (← get).lastFailure }
  else return v

def runStep (c : Case) (t : DispatchTable) (index : Nat) (s : Step) : Action StepResult := do
  let verdict ← x.review c t index s (← x.attempt c t index s)
  x.recordStep (stepResult c index s verdict)
  return stepResult c index s verdict

def ends (r : StepResult) : Bool :=
  if r.undefined || r.status == .pending then x.policy.afterUndefined == .skipRest
  else r.status == .failed && x.policy.afterFailure == .skipRest

/-- Runs the steps from `index` on; with `skip` the rest is skipped. -/
def runSteps (c : Case) (t : DispatchTable) : (index : Nat) → (skip : Bool) → List Step →
    Action Unit
  | _, _, [] => pure ()
  | index, skip, s :: ss => do
    if ← (if skip then pure true else x.stopped) then
      x.skipStep c index s
      runSteps c t (index + 1) skip ss
    else
      x.transition c .runningStep (some index)
      let result ← x.runStep c t index s
      runSteps c t (index + 1) (x.ends result) ss

def skipAll (c : Case) : (index : Nat) → List Step → Action Unit
  | _, [] => pure ()
  | index, s :: ss => do
    x.skipStep c index s
    skipAll c (index + 1) ss

/-- Skips what lies behind the last step that has a result. -/
def skipRemaining (c : Case) : Action Unit := do
  let done := (← get).steps.length
  x.skipAll c done (c.scenario.steps.drop done)

/-- The hooks after a scenario, which are shown the result so far. -/
def cleanUp (c : Case) (a : Arena) : Action Unit := do
  x.transition c .runningAfterHooks none
  let result := c.result (← get) .runningAfterHooks
  let _ ← x.runHooks .afterScenario c a (.scenario (c.scope (some result))) false

/-- Hooks before the scenario, and the steps, which are skipped if one of the hooks failed. -/
def proceedThrough (c : Case) (t : DispatchTable) : Action Unit := do
  x.transition c .runningBeforeHooks none
  let ready ← x.runHooks .beforeScenario c t.arena (.scenario (c.scope none)) true
  x.runSteps c t 0 (!ready) c.scenario.steps

/-- After an interrupt from outside the calls, what remains is skipped. -/
def recover (c : Case) : Except Fault Unit → Action (Except Fault Unit)
  | .ok _ => return .ok ()
  | .error f =>
    if f.family == .interrupt then
      Effect.observe do
        x.interrupt c "executor"
        x.skipRemaining c
    else return .error f

def announce (c : Case) (stage : Stage) : Action ScenarioResult := do
  let result := c.result (← get) stage
  x.transition c stage none
  x.emit (.scenario result)
  return result

def warn (c : Case) (r : ScenarioResult) : Action Unit :=
  if r.status == .failed then
    x.log .warning "scenario failed"
      [("scenario", .text c.id), ("error", (r.error.map Datum.error).getD (.plain .null))]
  else pure ()

def conclude (c : Case) : Action ScenarioResult := do
  let result ← x.announce c (if ← x.stopped then .aborted else .finalized)
  x.warn c result
  return result

/-- The scenario on contexts that are complete. Its cleanup runs however the rest ended. -/
def runComposed (c : Case) (t : DispatchTable) : Action ScenarioResult := do
  let outcome ← x.recover c (← Effect.observe (x.proceedThrough c t))
  x.cleanUp c t.arena
  Effect.settle outcome
  x.conclude c

def cleanUpSalvaged (c : Case) : Option Arena → Action Unit
  | some a => x.cleanUp c a
  | none => pure ()

/-- The scenario without contexts: every step is skipped, and what was built is cleaned up. -/
def abandon (c : Case) (cause : Fault) (salvaged : Option Arena) : Action ScenarioResult := do
  x.log .error "context setup failed" [("scenario", .text c.id), ("cause", .text cause.message)]
  let setup := Fault.setup c.scenario.name cause
  modify (·.noteError (some (ErrorInfo.ofFault setup "compose" x.policy.captureStack)))
  x.skipAll c 0 c.scenario.steps
  x.cleanUpSalvaged c salvaged
  x.announce c .aborted

/-- Composes the contexts of a scenario and finds the context of every definition. -/
def setUp (c : Case) : Action (Except Broken DispatchTable) := do
  x.transition c .initializing none
  match ← ExceptT.lift (StateT.lift (compose x.root)) with
  | .error broken => return .error broken
  | .ok a =>
    match DispatchTable.build x.registry a with
    | .error f => return .error ⟨f, none⟩
    | .ok t => return .ok t

def runCase (c : Case) : Action ScenarioResult := do
  match ← x.setUp c with
  | .error broken =>
    if Composition.escapes broken.fault then throw broken.fault
    else x.abandon c broken.fault broken.salvaged
  | .ok t => x.runComposed c t

/-- Runs a scenario, under an id of its own unless it goes by its name. -/
def run (scenario : Scenario) (feature : Option Feature) (id : Option String) :
    Routine (Except Fault ScenarioResult) := do
  return (← ((x.runCase (.named scenario feature id)).run.run Ledger.empty)).1

end Executor
end Rehearsal
