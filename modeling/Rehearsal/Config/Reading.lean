import Rehearsal.Config.Runner

/-! Reading a runner's configuration from a value. The fields of a section are checked in the order of
its declaration, after them what the section has no field for; what concerns a section as a whole is
checked when its fields are good. -/

namespace Rehearsal.Config
set_option autoImplicit false

abbrev Entries := List (Value × Value)

def lookup? (name : String) (es : Entries) : Option Value :=
  (es.find? fun e => e.1.text? == some name).map (·.2)

section Fields

variable {α : Type}

/-- A field with a value for when it is missing. -/
def field (name : String) (missing : α) (read : Value → Checked α) (es : Entries) : Checked α :=
  match lookup? name es with
  | some v => (read v).under name
  | none => .good missing

def readOptional (read : Value → Checked α) : Value → Checked (Option α)
  | .null => .good none
  | v => (read v).map some

end Fields

/-- How a place is named by a key; truth values count as numbers. -/
def keyPlace : Value → String
  | .text s => s
  | .bool b => if b then "1" else "0"
  | v => v.shown

/-- The problems with entries that a section has no field for. -/
def strangers (known : List String) (es : Entries) : List Problem :=
  es.filterMap fun e =>
    match e.1 with
    | .text s => if known.contains s then none else some ⟨[s], "Extra inputs are not permitted"⟩
    | key => some ⟨[keyPlace key], "Keys should be strings"⟩

/-- Reads a section; `title` is what a message calls it. -/
def readSection {α : Type} (title : String) (read : Entries → Checked α) : Value → Checked α
  | .dict es => read es
  | _ => .refuse ("Input should be a valid dictionary or instance of " ++ title)

def readItemsFrom {α : Type} (read : Value → Checked α) : Nat → List Value → Checked (List α)
  | _, [] => pure []
  | i, v :: vs => List.cons <$> (read v).under (toString i) <*> readItemsFrom read (i + 1) vs

def notList {α : Type} : Checked α := .refuse "Input should be a valid list"

def readList {α : Type} (read : Value → Checked α) : Value → Checked (List α)
  | .list items => readItemsFrom read 0 items
  | _ => notList

def readExecutionEntries (es : Entries) : Checked Execution :=
  let base := Execution.standard
  Checked.beside
    (strangers ["ambiguity", "undefined", "after_undefined", "after_failure", "auto_coerce",
      "strict", "workers", "capture_stack"] es)
    (Execution.mk <$> field "ambiguity" base.ambiguity (readChoice ambiguityChoices) es
      <*> field "undefined" base.undefinedFails (readChoice undefinedChoices) es
      <*> field "after_undefined" base.afterUndefined (readChoice aftermathChoices) es
      <*> field "after_failure" base.afterFailure (readChoice aftermathChoices) es
      <*> field "auto_coerce" base.autoCoerce readFlag es
      <*> field "strict" base.strict readFlag es
      <*> field "workers" base.workers readCount es
      <*> field "capture_stack" base.captureStack readFlag es)

def readExecution : Value → Checked Execution := readSection "ExecutionConfig" readExecutionEntries

/-- A file sink needs a path that is not empty. -/
def lacksPath (path : Option String) : Bool := path.all (·.isEmpty)

def readLoggingEntries (es : Entries) : Checked Logging :=
  let base := Logging.standard
  let fields := Logging.mk <$> field "sink" base.sink (readChoice logTargets) es
    <*> field "path" base.path (readOptional readText) es
    <*> field "level" base.level (readChoice levelChoices) es
  (Checked.beside (strangers ["sink", "path", "level"] es) fields).verify fun l =>
    if l.sink = .jsonl && lacksPath l.path then
      some "Value error, logging.path is required when sink is 'jsonl'"
    else none

def readLogging : Value → Checked Logging := readSection "LoggingConfig" readLoggingEntries

def readResultsEntries (es : Entries) : Checked Results :=
  let base := Results.standard
  let fields := Results.mk <$> field "sink" base.sink (readChoice recordTargets) es
    <*> field "path" base.path (readOptional readText) es
    <*> field "include_phases" base.includePhases readFlag es
    <*> field "write_mode" base.batch (readChoice writeModes) es
    <*> field "flush_every_n" base.flushEvery readCount es
    <*> field "fsync_every_n" base.syncEvery (readOptional readCount) es
  let known :=
    ["sink", "path", "include_phases", "write_mode", "flush_every_n", "fsync_every_n"]
  (Checked.beside (strangers known es) fields).verify fun r =>
    if r.sink = .jsonl && lacksPath r.path then
      some "Value error, results.path is required when sink is 'jsonl'"
    else none

def readResults : Value → Checked Results := readSection "ResultsConfig" readResultsEntries

/-! ### Contexts -/

/-- An import path has a module before its first colon and a name behind it. -/
def isImportPath (s : String) : Bool :=
  match s.toList.dropWhile (· != ':') with
  | _ :: name => !name.isEmpty && s.toList.head? != some ':'
  | [] => false

def readPath (v : Value) : Checked String :=
  (readText v).verify fun s =>
    if isImportPath s then none
    else some "Value error, class must look like 'package.module:ClassName'"

def readAlias (v : Value) : Checked String :=
  (readText v).verify fun s =>
    if s.isEmpty then some "Value error, alias must be a non-empty string" else none

/-- The names of the field that holds the import path; the first that is there counts. -/
def pathNames : List String := ["class", "class_path"]

/-- The name by which the import path is given. -/
def pathName (es : Entries) : String :=
  (pathNames.find? fun name => (lookup? name es).isSome).getD "class"

def readPathField (es : Entries) : Checked String :=
  match lookup? (pathName es) es with
  | some v => (readPath v).under (pathName es)
  | none => .bad [⟨[pathName es], "Field required"⟩]

def keyProblems (es : Entries) : List Problem :=
  es.filterMap fun e =>
    if e.1.text?.isSome then none
    else some ⟨[keyPlace e.1, "[key]"], "Input should be a valid string"⟩

def readParams : Value → Checked Entries
  | .dict es => Checked.beside (keyProblems es) (.good es)
  | _ => .refuse "Input should be a valid dictionary"

def readContextOver (es : Entries) (under : Checked (List ContextDecl)) : Checked ContextDecl :=
  Checked.beside
    (strangers [pathName es, "alias", "params", "capabilities", "subcontexts"] es)
    (ContextDecl.mk <$> readPathField es
      <*> field "alias" rootAlias readAlias es
      <*> field "params" [] readParams es
      <*> field "capabilities" [] (readList readText) es
      <*> under.under "subcontexts")

mutual

def readContext : Value → Checked ContextDecl
  | .dict es => readContextOver es (readUnder es)
  | _ => .refuse "Input should be a valid dictionary or instance of ContextDecl"

def readUnder : List (Value × Value) → Checked (List ContextDecl)
  | [] => .good []
  | (key, v) :: es =>
    if key.text? == some "subcontexts" then readContextList v else readUnder es

def readContextList : Value → Checked (List ContextDecl)
  | .list items => readContextsFrom 0 items
  | _ => notList

def readContextsFrom : Nat → List Value → Checked (List ContextDecl)
  | _, [] => pure []
  | i, v :: vs =>
    List.cons <$> (readContext v).under (toString i) <*> readContextsFrom (i + 1) vs

end

/-! ### The whole configuration -/

def aliasFlaw (c : RunnerConfig) : Option String :=
  (c.contexts.bind fun d => ContextDecl.repeatedAlias? [] [d]).map fun aliasName =>
    "Value error, contexts: duplicate subcontext alias '" ++ aliasName ++ "'"

def readRunnerEntries (es : Entries) : Checked RunnerConfig :=
  let base := RunnerConfig.standard
  let fields := RunnerConfig.mk <$> field "execution" base.execution readExecution es
    <*> field "contexts" base.contexts (readOptional readContext) es
    <*> field "step_modules" base.stepModules (readList readText) es
    <*> field "logging" base.logging readLogging es
    <*> field "results" base.results readResults es
  (Checked.beside (strangers ["execution", "contexts", "step_modules", "logging", "results"] es)
    fields).verify aliasFlaw

end Rehearsal.Config

namespace Rehearsal.RunnerConfig

def ofValue : Value → Except ConfigError RunnerConfig
  | .dict es => (Config.readRunnerEntries es).toExcept
  | _ => .error .rootNotMapping

end Rehearsal.RunnerConfig
