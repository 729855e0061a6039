import Rehearsal.Config.Literal
import Rehearsal.Report.Log
import Rehearsal.Run.Scenario

/-! The configuration of a runner. -/

namespace Rehearsal
set_option autoImplicit false

namespace Config

structure Execution where
  ambiguity : Ambiguity
  /-- Does an undefined step fail, or is it pending? -/
  undefinedFails : Bool
  afterUndefined : Aftermath
  afterFailure : Aftermath
  autoCoerce : Bool
  strict : Bool
  workers : Count
  captureStack : Bool

def Execution.standard : Execution :=
  ⟨.error, false, .skipRest, .skipRest, true, false, ⟨1, by decide⟩, true⟩

def Execution.matcher (e : Execution) : Matcher :=
  { Matcher.standard with ambiguity := e.ambiguity, autoCoerce := e.autoCoerce }

def Execution.policy (e : Execution) : Policy :=
  ⟨e.afterFailure, e.afterUndefined, e.undefinedFails, e.captureStack⟩

/-- A declared context: the import path of its class, its alias and what it is built with. -/
structure ContextDecl where
  path : String
  aliasName : String
  params : List (Value × Value)
  capabilities : List String
  subcontexts : List ContextDecl

/-- Where log messages go. -/
inductive LogTarget where
  | none
  | stdout
  | jsonl
deriving DecidableEq, Repr

structure Logging where
  sink : LogTarget
  path : Option String
  level : LogLevel

def Logging.standard : Logging := ⟨.none, .none, .info⟩

/-- Where records go. -/
inductive RecordTarget where
  | none
  | memory
  | stdout
  | jsonl
deriving DecidableEq, Repr

structure Results where
  sink : RecordTarget
  path : Option String
  includePhases : Bool
  batch : Bool
  flushEvery : Count
  syncEvery : Option Count

def Results.standard : Results := ⟨.none, .none, true, false, ⟨1, by decide⟩, .none⟩

def ambiguityChoices : Choices Ambiguity := [("error", .error), ("first", .first)]

def undefinedChoices : Choices Bool := [("pending", false), ("failed", true)]

def aftermathChoices : Choices Aftermath := [("skip_rest", .skipRest), ("continue", .goOn)]

def logTargets : Choices LogTarget := [("none", .none), ("stdout", .stdout), ("jsonl", .jsonl)]

def levelChoices : Choices LogLevel := LogLevel.all.map fun l => (l.text, l)

def recordTargets : Choices RecordTarget :=
  [("none", .none), ("memory", .memory), ("stdout", .stdout), ("jsonl", .jsonl)]

/-- The names of a file sink's ways to write; the second one collects lines. -/
def writeModes : Choices Bool := [("line", false), ("batch", true)]

end Config

open Config in
structure RunnerConfig where
  execution : Execution
  contexts : Option ContextDecl
  stepModules : List String
  logging : Logging
  results : Results

def RunnerConfig.standard : RunnerConfig := ⟨.standard, none, [], .standard, .standard⟩

namespace Config.ContextDecl

mutual

def count : ContextDecl → Nat
  | ⟨_, _, _, _, subcontexts⟩ => 1 + countAll subcontexts

def countAll : List ContextDecl → Nat
  | [] => 0
  | d :: ds => count d + countAll ds

end

theorem count_eq (d : ContextDecl) : d.count = 1 + countAll d.subcontexts := by
  rcases d with ⟨_, _, _, _, _⟩
  rw [count]

theorem countAll_append (a b : List ContextDecl) : countAll (a ++ b) = countAll a + countAll b := by
  induction a with
  | nil => simp [countAll]
  | cons d ds ih => simp [countAll, ih, Nat.add_assoc]

theorem countAll_reverse (ds : List ContextDecl) : countAll ds.reverse = countAll ds := by
  induction ds with
  | nil => rfl
  | cons d ds ih => simp [countAll, countAll_append, ih, Nat.add_comm]

/-- The first alias that was met before. The declaration on top of the stack is looked at, and those under it
are put on top, the last of them above the others. -/
def repeatedAlias? (met : List String) (pending : List ContextDecl) : Option String :=
  match pending with
  | [] => none
  | d :: rest =>
    if met.contains d.aliasName then some d.aliasName
    else repeatedAlias? (d.aliasName :: met) (d.subcontexts.reverse ++ rest)
termination_by countAll pending
decreasing_by simp [countAll, countAll_append, countAll_reverse, count_eq]

end Config.ContextDecl
end Rehearsal
