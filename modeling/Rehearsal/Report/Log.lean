import Rehearsal.Json.Writer
import Rehearsal.Report.Plain

/-! Log messages and the loggers that let them through. -/

namespace Rehearsal
set_option autoImplicit false

inductive LogLevel where
  | debug
  | info
  | warning
  | error
deriving DecidableEq, Repr

namespace LogLevel

def all : List LogLevel := [debug, info, warning, error]

theorem mem_all (l : LogLevel) : l ∈ all := by cases l <;> decide

def text : LogLevel → String
  | debug => "debug"
  | info => "info"
  | warning => "warning"
  | error => "error"

def ofText? (s : String) : Option LogLevel := all.find? (·.text == s)

def weight : LogLevel → Nat
  | debug => 10
  | info => 20
  | warning => 30
  | error => 40

end LogLevel

structure LogMessage where
  level : LogLevel
  message : String
  time : Option Timestamp
  fields : List (String × Datum)

/-- A message ready to be written: the scenario stands beside the level, the other fields on their own. -/
structure LogEntry where
  level : String
  message : String
  timestamp : Json
  scenario : Option Datum
  fields : List (String × Json)

def LogEntry.toJson (e : LogEntry) : Json :=
  let scenario :=
    match e.scenario with
    | some d => [("scenario", Report.raw d)]
    | none => []
  .obj ([("level", .str e.level), ("message", .str e.message), ("timestamp", e.timestamp)] ++ scenario ++
    [("fields", .obj e.fields)])

namespace LogMessage

/-- A message must say something at a known level. -/
def make (level message : String) (time : Option Timestamp) (fields : List (String × Datum)) :
    Except Fault LogMessage :=
  if level.isEmpty || message.isEmpty then .error .blankLog
  else
    match LogLevel.ofText? level with
    | some level => .ok ⟨level, message, time, fields⟩
    | none => .error (.logLevel "LogMessage")

def fieldJson : Datum → Json
  | .error e | .record (.error e) => Report.summary e
  | d => Report.ofDatum d

/-- The scenario of a message, if it names one. -/
def scenario? (m : LogMessage) : Option Datum :=
  ((m.fields.find? (·.1 == "scenario")).map (·.2)).filter fun d => !d.isNull

/-- The scenario is left as it is; of an error in another field only the summary is kept. -/
def entry (m : LogMessage) : LogEntry where
  level := m.level.text
  message := m.message
  timestamp := Report.ofTime m.time
  scenario := m.scenario?
  fields := (m.fields.filter (·.1 != "scenario")).map fun f => (f.1, fieldJson f.2)

def toJson (m : LogMessage) : Json := m.entry.toJson

def line (m : LogMessage) : String := m.toJson.line

end LogMessage

/-- A filter in front of a sink; without a sink nothing is logged. -/
structure Logger where
  level : LogLevel
  hasSink : Bool

namespace Logger

def silent : Logger := ⟨.info, false⟩

def make (level : String) (hasSink : Bool) : Except Fault Logger :=
  match LogLevel.ofText? level with
  | some level => .ok ⟨level, hasSink⟩
  | none => .error (.logLevel "KernelLogger")

def passes (l : Logger) (level : LogLevel) : Bool := l.hasSink && l.level.weight ≤ level.weight

/-- Does a message of a level given by name reach the sink? -/
def enabled (l : Logger) (level : String) : Except Fault Bool :=
  if !l.hasSink then .ok false
  else
    match LogLevel.ofText? level with
    | some level => .ok (l.passes level)
    | none => .error (.unknownLevel level)

/-- The message that reaches the sink, if one does. -/
def message (l : Logger) (level message : String) (fields : List (String × Datum)) :
    Except Fault (Option LogMessage) := do
  if ← l.enabled level then return some (← LogMessage.make level message none fields)
  else return none

end Logger
end Rehearsal
