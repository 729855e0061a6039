import Rehearsal.Context.Arena
import Rehearsal.Report.Log
import Rehearsal.Run.Program
import Rehearsal.Scope

/-! What a run asks of its surroundings: to call what users wrote, to build contexts, to take records
and messages, and to keep the signal by which a run is aborted. -/

namespace Rehearsal
set_option autoImplicit false

/-- The signal by which anyone may ask a run to stop. The reason of the first request counts. -/
structure AbortSignal where
  requested : Bool
  reason : Option String
deriving DecidableEq, Repr

namespace AbortSignal

def clear : AbortSignal := ⟨false, none⟩

def defaultReason : String := "abort requested"

def request (s : AbortSignal) (reason : Option String) : AbortSignal :=
  if s.requested then s else ⟨true, reason⟩

end AbortSignal

/-- What a callable receives. -/
inductive Argument where
  | value (v : Value)
  | scope (s : Scope)

inductive Request where
  /-- Hand a record to the sink. -/
  | emit (r : Record)
  /-- Hand a message to the log. -/
  | log (m : LogMessage)
  | call (c : Callable) (args : List Argument)
  | construct (f : Factory) (params : List (String × Value))
  /-- Tell the contexts of an arena which node each of them is. -/
  | attach (a : Arena)
  /-- Is an abort requested? -/
  | aborted
  | abort (reason : Option String)
  | resetAbort
  /-- Tell that a tie between definitions was settled by order. -/
  | tie (text : String) (patterns : List String)
  /-- Make the sink write out what it holds back. -/
  | flush

/-- A fault where there was one, an instance where one is built. That contexts take the attributes by which
they are told of their nodes is taken for granted: `attach` is not answered by a fault. -/
def Request.Answer : Request → Type
  | emit _ | log _ | call .. | tie .. | flush => Option Fault
  | construct .. => Except Fault Instance
  | attach _ | abort _ | resetAbort => Unit
  | aborted => Bool

abbrev Routine (α : Type) := Program Request.Answer α

def Routine.aborted : Routine Bool := Program.request Request.aborted

def Routine.emit (r : Record) : Routine (Option Fault) := Program.request (Request.emit r)

/-- A routine that keeps a ledger and may be interrupted by a fault, after which the ledger stays. -/
abbrev Effect (σ : Type) := ExceptT Fault (StateT σ (Program Request.Answer))

namespace Effect

variable {σ α : Type}

def perform (r : Request) : Effect σ r.Answer :=
  ExceptT.lift (StateT.lift (Program.request r))

def aborted : Effect σ Bool := perform .aborted

def proceed : Option Fault → Effect σ Unit
  | some f => throw f
  | none => pure ()

/-- Runs to the end and returns how it ended. -/
def observe (x : Effect σ α) : Effect σ (Except Fault α) :=
  ExceptT.mk (x.run >>= fun r => pure (.ok r))

def settle : Except Fault α → Effect σ α
  | .ok a => pure a
  | .error f => throw f

def log (l : Logger) (level : LogLevel) (message : String) (fields : List (String × Datum)) :
    Effect σ Unit :=
  if l.passes level then do
    proceed (← perform (.log ⟨level, message, none, fields⟩))
  else pure ()

end Effect
end Rehearsal
