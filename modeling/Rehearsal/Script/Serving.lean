import Rehearsal.Run.Suite
import Rehearsal.Script.Interpreter

/-! Rehearsals: the requests of a run served by a host of scripts and its world. A pool runs its jobs
one after the other, which is one of the interleavings that it may choose. -/

namespace Rehearsal.Script
set_option autoImplicit false

/-- Does what scripts do, and tells how it ended. -/
def Act.serve {α : Type} (x : Act α) (w : World) : Except Fault α × World := (x.run).run w

def faultOf? {α : Type} : Except Fault α → Option Fault
  | .ok _ => none
  | .error f => some f

def serveCall (h : Host) (c : Callable) (args : List Argument) (w : World) : Option Fault × World :=
  let (ended, w) := (call h c.id (args.map subjectOf) []).serve w
  (faultOf? ended, w)

def serve (h : Host) : (r : Request) → World → r.Answer × World
  | .emit r, w => w.emit r
  | .log m, w => w.log m
  | .call c args, w => serveCall h c args w
  | .construct f params, w => (construct h f params).serve w
  | .attach a, w => ((), w.attach a)
  | .aborted, w => (w.signal.requested, w)
  | .abort reason, w => ((), { w with signal := w.signal.request reason })
  | .resetAbort, w => ((), { w with signal := .clear })
  | .tie text _, w => (none, { w with tied := w.tied ++ [text] })
  | .flush, w => w.flush

def serveJobs (h : Host) : List Job → World → List (Except Fault ScenarioResult) × World
  | [], w => ([], w)
  | j :: js, w =>
    let (ended, w) := j.runWith (serve h) w
    let (rest, w) := serveJobs h js w
    (ended :: rest, w)

def serveSuite (h : Host) : (r : SuiteRequest) → World → Option (r.Answer × World)
  | .single r, w => some (serve h r w)
  | .pool jobs, w => some (serveJobs h jobs w)
  | .stall, _ => none

/-- Runs a routine of the runner in a world. -/
def rehearse {α : Type} (h : Host) (p : Routine α) (w : World) : α × World := p.runWith (serve h) w

/-- Runs a suite in a world. A run that stalls has no outcome. -/
def rehearseSuite {α : Type} (h : Host) (p : SuiteRoutine α) (w : World) : Option α × World :=
  p.runWhile (serveSuite h) w

end Rehearsal.Script
