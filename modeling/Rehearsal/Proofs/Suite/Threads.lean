import Rehearsal.Proofs.Suite.Requests

/-! How threads carry out the run of a suite. One thread leads. It hands the scenarios of a feature to a
pool, waits for them one after the other, and no longer once one of them ended in a fault; the pool is shut
down after the loop over the features, however that came to its end. The workers of the pool pick up what
waits, in any order, and run it beside each other and beside the thread that leads. Nothing is said of what
anyone answers. -/

namespace Rehearsal
set_option autoImplicit false

/-- The place of a scenario: its feature in the suite, and its own in the feature. -/
structure Ticket where
  turn : Nat
  number : Nat
deriving DecidableEq, Repr

inductive ThreadRequest where
  /-- What the leading thread asks for in the turn of a feature. -/
  | single (turn : Nat) (r : Request)
  | submit (t : Ticket) (j : Job)
  /-- Wait for the end of a job. -/
  | await (t : Ticket)
  /-- Wait for the ends of all jobs, and let the workers go. -/
  | shutDown
  /-- Wait on without end. -/
  | stall

def ThreadRequest.Answer : ThreadRequest → Type
  | single _ r => r.Answer
  | submit .. => Unit
  | await _ => Except Fault ScenarioResult
  | shutDown => Unit
  | stall => Empty

abbrev Threaded (α : Type) := Program ThreadRequest.Answer α

namespace Threaded

def submitAll (turn : Nat) : Nat → List Job → Threaded Unit
  | _, [] => .done ()
  | n, j :: jobs => .ask (.submit ⟨turn, n⟩ j) fun _ => submitAll turn (n + 1) jobs

/-- An end, and more of them unless it is a fault. -/
def upToFault (more : Threaded (List (Except Fault ScenarioResult))) :
    Except Fault ScenarioResult → Threaded (List (Except Fault ScenarioResult))
  | .ok r => more >>= fun ends => .done (.ok r :: ends)
  | .error f => .done [.error f]

/-- The ends of as many jobs, from some number on, up to the first that is a fault. -/
def collect (turn : Nat) : Nat → Nat → Threaded (List (Except Fault ScenarioResult))
  | _, 0 => .done []
  | n, count + 1 => .ask (.await ⟨turn, n⟩) (upToFault (collect turn (n + 1) count))

end Threaded

/-- What a suite asks for in the turn of a feature, as the leading thread does it. -/
def Program.inThreads {α : Type} (turn : Nat) : SuiteRoutine α → Threaded α
  | .done a => .done a
  | .ask (.single r) next => .ask (.single turn r) fun x => (next x).inThreads turn
  | .ask (.pool jobs) next =>
    Threaded.submitAll turn 0 jobs >>= fun _ =>
      Threaded.collect turn 0 jobs.length >>= fun ends => (next ends).inThreads turn
  | .ask .stall next => .ask .stall fun x => (next x).inThreads turn

namespace Suite

/-- The loop over the features, each in its turn. -/
def loopInThreads (s : Suite) (ready : Bool) :
    Nat → List Feature → List FeatureResult → Threaded (Except Fault Unit × List FeatureResult)
  | _, [], l => .done (.ok (), l)
  | turn, f :: fs, l =>
    ((s.runFeatures ready [f]).run.run l).inThreads turn >>= fun r =>
      match r.1 with
      | .ok _ => loopInThreads s ready (turn + 1) fs r.2
      | .error e => .done (.error e, r.2)

def shutDown (s : Suite) : Threaded Unit :=
  if 1 < s.workers then .ask .shutDown fun _ => .done () else .done ()

/-- What the leading thread does. What it asks for before the first feature counts to the first turn, and
what comes after the last one to a turn of its own. -/
def inThreads (s : Suite) (features : List Feature) : Threaded (Except Fault SuiteResult) :=
  ((s.opening features).run.run []).inThreads 0 >>= fun r =>
    match r.1 with
    | .error e => .done (.error e)
    | .ok hooks =>
      s.loopInThreads (allWell hooks) 0 features r.2 >>= fun r =>
        s.shutDown >>= fun _ =>
          ((s.closing features hooks r.1).run.run r.2).inThreads features.length >>= fun r => .done r.1

end Suite

/-- A job that was handed over: it is not picked up yet, some worker is at it, or it has come to its end. -/
inductive Task where
  | waiting (j : Job)
  | working (p : Job)
  | ended (o : Except Fault ScenarioResult)

namespace Task

def busy : Task → Bool
  | working _ => true
  | _ => false

def isEnded : Task → Bool
  | ended _ => true
  | _ => false

/-- What is left of a job. -/
def left : Task → Job
  | waiting j => j
  | working p => p
  | ended o => .done o

end Task

/-- What is left to do for the leading thread, and what is in the pool. -/
structure Threads (α : Type) where
  lead : Threaded α
  tasks : List (Ticket × Task)

namespace Threads
variable {α : Type}

/-- What some thread does. A request stands where it is made. -/
inductive Event where
  | led (turn : Nat) (m : Moment Request.Answer Bool)
  | submitted (t : Ticket) (j : Job)
  | picked (t : Ticket)
  | worked (t : Ticket) (m : Moment Request.Answer Bool)
  | ended (t : Ticket) (o : Except Fault ScenarioResult)
  | awaited (t : Ticket)
  | interrupted (t : Ticket)
  | closed

/-- One step of the leading thread. While it waits for a job it may be interrupted; then it requests an abort
and waits again. Where it has come to stall it makes no step any more. -/
inductive Leads : Threads α → Event → Threads α → Prop where
  | single {turn : Nat} {r : Request} {next : r.Answer → Threaded α} {tasks : List (Ticket × Task)}
      (x : r.Answer) (b : Bool) :
      Leads ⟨.ask (.single turn r) next, tasks⟩ (.led turn ⟨r, x, b⟩) ⟨next x, tasks⟩
  | submit {t : Ticket} {j : Job} {next : Unit → Threaded α} {tasks : List (Ticket × Task)} :
      Leads ⟨.ask (.submit t j) next, tasks⟩ (.submitted t j) ⟨next (), tasks ++ [(t, .waiting j)]⟩
  | await {t : Ticket} {next : Except Fault ScenarioResult → Threaded α} {tasks : List (Ticket × Task)}
      {o : Except Fault ScenarioResult} :
      (t, .ended o) ∈ tasks → Leads ⟨.ask (.await t) next, tasks⟩ (.awaited t) ⟨next o, tasks⟩
  | interrupt {t : Ticket} {next : Except Fault ScenarioResult → Threaded α}
      {tasks : List (Ticket × Task)} :
      Leads ⟨.ask (.await t) next, tasks⟩ (.interrupted t) ⟨.ask (.await t) next, tasks⟩
  | close {next : Unit → Threaded α} {tasks : List (Ticket × Task)} :
      (∀ p ∈ tasks, p.2.isEnded = true) →
      Leads ⟨.ask .shutDown next, tasks⟩ .closed ⟨next (), tasks⟩

/-- One step of a worker. One that is free picks up any job that waits. -/
inductive Works (workers : Nat) : List (Ticket × Task) → Event → List (Ticket × Task) → Prop where
  | pick (before after : List (Ticket × Task)) {t : Ticket} {j : Job} :
      (before ++ (t, .waiting j) :: after).countP (·.2.busy) < workers →
      Works workers (before ++ (t, .waiting j) :: after) (.picked t)
        (before ++ (t, .working j) :: after)
  | go (before after : List (Ticket × Task)) {t : Ticket} {r : Request} {next : r.Answer → Job}
      (x : r.Answer) (b : Bool) :
      Works workers (before ++ (t, .working (.ask r next)) :: after) (.worked t ⟨r, x, b⟩)
        (before ++ (t, .working (next x)) :: after)
  | finish (before after : List (Ticket × Task)) {t : Ticket} {o : Except Fault ScenarioResult} :
      Works workers (before ++ (t, .working (.done o)) :: after) (.ended t o)
        (before ++ (t, .ended o) :: after)

inductive Step (workers : Nat) : Threads α → Event → Threads α → Prop where
  | lead {st st' : Threads α} {e : Event} : Leads st e st' → Step workers st e st'
  | work {p : Threaded α} {tasks tasks' : List (Ticket × Task)} {e : Event} :
      Works workers tasks e tasks' → Step workers ⟨p, tasks⟩ e ⟨p, tasks'⟩

/-- What a program can have come to, and what was done up to there. -/
inductive Reaches (workers : Nat) (p : Threaded α) : List Event → Threads α → Prop where
  | start : Reaches workers p [] ⟨p, []⟩
  | step {h : List Event} {e : Event} {st st' : Threads α} :
      Reaches workers p h st → Step workers st e st' → Reaches workers p (h ++ [e]) st'

/-- Who is to make the next step: the leading thread, or whoever works at the job at some place. -/
inductive Choice where
  | lead
  | work (place : Nat)

section Schedule
variable {σ : Type} (serve : (r : Request) → σ → r.Answer × σ) (mark : σ → Bool)

/-- The step of the leading thread, unless it has to wait or is done. -/
def lead? : Threads α → σ → Option (Event × Threads α × σ)
  | ⟨.done _, _⟩, _ => none
  | ⟨.ask (.single turn r) next, tasks⟩, w =>
    let (x, w) := serve r w
    some (.led turn ⟨r, x, mark w⟩, ⟨next x, tasks⟩, w)
  | ⟨.ask (.submit t j) next, tasks⟩, w => some (.submitted t j, ⟨next (), tasks ++ [(t, .waiting j)]⟩, w)
  | ⟨.ask (.await t) next, tasks⟩, w =>
    match tasks.find? (·.1 == t) with
    | some (_, .ended o) => some (.awaited t, ⟨next o, tasks⟩, w)
    | _ => none
  | ⟨.ask .shutDown next, tasks⟩, w =>
    if tasks.all (·.2.isEnded) then some (.closed, ⟨next (), tasks⟩, w) else none
  | ⟨.ask .stall _, _⟩, _ => none

/-- The step of a worker with the job at some place, if there is one to make. -/
def work? (workers : Nat) (place : Nat) :
    Threads α → σ → Option (Event × Threads α × σ)
  | ⟨p, tasks⟩, w =>
    match tasks.drop place with
    | [] => none
    | (t, .waiting j) :: after =>
      if tasks.countP (·.2.busy) < workers then
        some (.picked t, ⟨p, tasks.take place ++ (t, .working j) :: after⟩, w)
      else none
    | (t, .working (.ask r next)) :: after =>
      let (x, w) := serve r w
      some (.worked t ⟨r, x, mark w⟩, ⟨p, tasks.take place ++ (t, .working (next x)) :: after⟩, w)
    | (t, .working (.done o)) :: after =>
      some (.ended t o, ⟨p, tasks.take place ++ (t, .ended o) :: after⟩, w)
    | (_, .ended _) :: _ => none

def choose? (workers : Nat) : Choice → Threads α → σ → Option (Event × Threads α × σ)
  | .lead => lead? serve mark
  | .work place => work? serve mark workers place

/-- Steps as they are chosen. A choice that cannot be followed is passed over. -/
def drive (workers : Nat) : List Choice → Threads α → σ → List Event × Threads α
  | [], st, _ => ([], st)
  | c :: cs, st, w =>
    match choose? serve mark workers c st w with
    | none => drive workers cs st w
    | some (e, st, w) =>
      let rest := drive workers cs st w
      (e :: rest.1, rest.2)

variable {st st' : Threads α} {w w' : σ} {e : Event} {workers : Nat}

section
variable {serve mark}

theorem leads_of_lead? (h : lead? serve mark st w = some (e, st', w')) : Leads st e st' := by
  obtain ⟨p, tasks⟩ := st
  cases p with
  | done _ => cases h
  | ask r next =>
    cases r with
    | single turn r =>
      cases h
      exact .single _ _
    | submit t j =>
      cases h
      exact .submit
    | await t =>
      rw [lead?] at h
      split at h
      · rename_i t' o hfind
        cases h
        obtain rfl : t' = t := beq_iff_eq.1 (List.find?_some hfind :)
        exact .await (List.mem_of_find?_eq_some hfind)
      · cases h
    | shutDown =>
      rw [lead?] at h
      split at h
      · rename_i hall
        cases h
        exact .close (List.all_eq_true.1 hall)
      · cases h
    | stall => cases h

theorem step_of_work? {place : Nat} (h : work? serve mark workers place st w = some (e, st', w')) :
    Step workers st e st' := by
  obtain ⟨p, tasks⟩ := st
  have htasks := List.take_append_drop place tasks
  rw [work?] at h
  generalize tasks.take place = before at h htasks
  split at h
  · cases h
  all_goals
    rename_i hdrop
    rw [hdrop] at htasks
    subst htasks
  · split at h
    · rename_i hfree
      cases h
      exact .work (.pick before _ hfree)
    · cases h
  · cases h
    exact .work (.go before _ _ _)
  · cases h
    exact .work (.finish before _)
  · cases h

end

/-- What is done by choice is one way in which a program can be carried out. -/
theorem reaches_drive {p : Threaded α} (cs : List Choice) {h : List Event} (hr : Reaches workers p h st)
    (w : σ) : Reaches workers p (h ++ (drive serve mark workers cs st w).1)
      (drive serve mark workers cs st w).2 := by
  induction cs generalizing h st w with
  | nil => rwa [drive, List.append_nil]
  | cons c cs ih =>
    rw [drive]
    split
    · exact ih hr w
    · rename_i e st' w' hnext
      have hstep : Step workers st e st' := by
        cases c with
        | lead => exact .lead (leads_of_lead? hnext)
        | work place => exact step_of_work? hnext
      have hrest := ih (.step hr hstep) w'
      rwa [List.append_assoc] at hrest

end Schedule
end Threads
end Rehearsal
