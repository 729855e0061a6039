import Rehearsal.Config.Source
import Rehearsal.Script.Import
import Rehearsal.Script.Serving

/-! From a configuration to a suite that can run: contexts and step modules are imported, outlets are
opened, and the registry is built. What is wrong with a configuration shows before any scenario
runs. -/

namespace Rehearsal.Script
set_option autoImplicit false

namespace Host

variable (h : Host)

mutual

/-- The declared contexts as specifications. A context is imported before those under it. -/
def specOfDecl : Config.ContextDecl → Except Fault ContextSpec
  | ⟨path, aliasName, params, capabilities, subcontexts⟩ => do
    let factory := h.factoryOf (← h.importThing path)
    if !factory.callable.isCallable then throw (.config (.notCallable aliasName path))
    ContextSpec.make factory (.text aliasName) (.dict params) (.list (capabilities.map .text))
      (← specsOfDecls subcontexts)

def specsOfDecls : List Config.ContextDecl → Except Fault (List ContextSpec)
  | [] => .ok []
  | d :: ds => do return (← specOfDecl d) :: (← specsOfDecls ds)

end

/-- The tree of a configuration; without one it is a single context that knows its place. -/
def rootOf (c : RunnerConfig) : Except Fault ContextSpec :=
  match c.contexts with
  | some d => h.specOfDecl d
  | none =>
    ContextSpec.make (h.factoryOf (.contextClass behaviourClass)) (.text rootAlias) (.dict [])
      (.list []) []

end Host

/-- What stands in the place of parts of a configuration. -/
structure Overrides where
  root : Option ContextSpec
  modules : Option (List StepModule)
  records : Option RecordOutlet
  messages : Option MessageOutlet

def messageOutletOf (l : Config.Logging) : MessageOutlet :=
  match l.sink with
  | .none => .nowhere
  | .stdout => .printed
  | .jsonl => .file (Datum.cleanPath (l.path.getD "")) false

def fileOptionsOf (r : Config.Results) : FileOptions :=
  { FileOptions.standard.utf8 with
    batch := r.batch
    every := r.flushEvery.1
    syncEvery := r.syncEvery.map fun n => (n.1 : Int)
    stages := r.includePhases }

def recordOutletOf (r : Config.Results) : RecordOutlet :=
  match r.sink with
  | .none => .nowhere
  | .memory => .memory ⟨r.includePhases, [], false⟩
  | .stdout => .printed r.includePhases
  | .jsonl => .file (Datum.cleanPath (r.path.getD "")) (.start (fileOptionsOf r))

namespace World

/-- Opens an outlet for messages; a file is there from then on. -/
def openMessages (w : World) (o : MessageOutlet) : World :=
  match o with
  | .file path _ => { w.appendLines path [] with messageOutlet := o }
  | _ => { w with messageOutlet := o }

/-- Opens an outlet for records; a file is there from then on. -/
def openRecords (w : World) (o : RecordOutlet) : World :=
  match o with
  | .file path _ => { w.appendLines path [] with recordOutlet := o }
  | _ => { w with recordOutlet := o }

end World

def RecordOutlet.isNowhere : RecordOutlet → Bool
  | .nowhere => true
  | _ => false

def MessageOutlet.isNowhere : MessageOutlet → Bool
  | .nowhere => true
  | _ => false

abbrev Boot := ExceptT Fault (StateM World)

namespace Boot

def settle {α : Type} : Except Fault α → Boot α
  | .ok a => pure a
  | .error f => throw f

def announce (l : Logger) (r : Registry) (root : ContextSpec) : Boot Unit := do
  let fields : List (String × Datum) :=
    [("definitions", .nat r.definitions.length), ("hooks", .nat r.hooks.length),
      ("contexts", .texts (root.walk.map (·.1.aliasName)))]
  match ← settle (l.message "info" "registry ready" fields) with
  | some m =>
    let (fault, w) := (← get).log m
    set w
    match fault with
    | some f => throw f
    | none => pure ()
  | none => pure ()

def suite (h : Host) (c : RunnerConfig) (o : Overrides) : Boot Suite := do
  let root ←
    match o.root with
    | some root => pure root
    | none => settle (h.rootOf c)
  let modules ←
    match o.modules with
    | some ms => pure ms
    | none => settle (c.stepModules.mapM h.importStepModule)
  let messages := o.messages.getD (messageOutletOf c.logging)
  modify (·.openMessages messages)
  let logger : Logger := ⟨c.logging.level, !messages.isNowhere⟩
  let registry ← settle (buildRegistry root modules)
  announce logger registry root
  let records := o.records.getD (recordOutletOf c.results)
  modify (·.openRecords records)
  return {
    registry := registry.freeze, root := root, matcher := c.execution.matcher, ties := .log
    policy := c.execution.policy, logger := logger, hasSink := !records.isNowhere
    workers := c.execution.workers.1, strict := c.execution.strict }

end Boot

/-- Builds the suite of a configuration and opens its outlets in a world. -/
def bootstrap (h : Host) (source : ConfigSource) (o : Overrides) (w : World) :
    Except Fault Suite × World :=
  match source.configOrStandard with
  | .error e => (.error (.config e), w)
  | .ok c => ((Boot.suite h c o).run).run w

/-- Builds a suite, runs features and closes the outlets, whatever came of the run; answers with the
exit code. A run that stalls leaves the outlets open, and there is no outcome. -/
def runFeatures (h : Host) (source : ConfigSource) (o : Overrides) (features : List Feature)
    (w : World) : Option (Except Fault Nat) × World :=
  match bootstrap h source o w with
  | (.error f, w) => (some (.error f), w)
  | (.ok suite, w) =>
    match rehearseSuite h (suite.run features) w with
    | (none, w) => (none, w)
    | (some ended, w) =>
      match w.close with
      | (some f, w) => (some (.error f), w)
      | (none, w) => (some (ended.map (·.exitCode)), w)

end Rehearsal.Script
