import Rehearsal.Proofs.Suite.Parts
import Rehearsal.Proofs.Suite.Surroundings

/-! Runs of one suite, one after the other. All that a suite has in common with its earlier runs is the
signal by which a run is aborted, and those whom it asks. They may keep in mind what was asked before, and
read and change the signal, in a run and between runs. As a run resets the signal before it asks for
anything else, it goes as the first run of a suite does, unless someone answers otherwise because of what
was before it. The jobs of a pool go one after the other here; a suite with one worker has none. -/

namespace Rehearsal
set_option autoImplicit false

/-- What was before a run: another run, with what was seen of it, or a request to abort. -/
inductive Episode where
  | run (features : List Feature) (seen : Trace)
  | abort (reason : Option String)

/-- Those whom the runs of a suite ask: whoever is called or builds contexts, the sink, the log, and who is
told of ties. What they answer, and what they do to the signal, may depend on the signal, on what was seen
of the run so far, and on what was before it. -/
structure Company where
  respond : List Episode → Trace → AbortSignal → (r : Request) → r.Answer × AbortSignal

namespace Company

/-- What was seen of a run so far, and the signal as it is. -/
structure Standing where
  seen : Trace
  signal : AbortSignal

variable (g : Company) (past : List Episode)

/-- Requests to the signal are no matter of those who are asked. -/
def answer (seen : Trace) (σ : AbortSignal) : (r : Request) → r.Answer × AbortSignal
  | .aborted => (σ.requested, σ)
  | .abort reason => ((), σ.request reason)
  | .resetAbort => ((), .clear)
  | r => g.respond past seen σ r

def serve (r : Request) (w : Standing) : r.Answer × Standing :=
  let (x, σ) := g.answer past w.seen w.signal r
  (x, ⟨w.seen ++ [⟨r, x, σ.requested⟩], σ⟩)

def serveAll : List Job → Standing → List (Except Fault ScenarioResult) × Standing
  | [], w => ([], w)
  | j :: jobs, w =>
    let (o, w) := j.runWith (g.serve past) w
    let (ends, w) := serveAll jobs w
    (o :: ends, w)

def serveSuite : (r : SuiteRequest) → Standing → Option (r.Answer × Standing)
  | .single r, w => some (g.serve past r w)
  | .pool jobs, w => some (g.serveAll past jobs w)
  | .stall, _ => none

end Company

/-- Where a suite is between its runs. -/
structure Session where
  signal : AbortSignal
  past : List Episode

def Session.fresh : Session := ⟨.clear, []⟩

/-- How a run went: how it ended unless it stalled, what was seen of it, and the signal that it left. -/
structure Performance where
  outcome : Option (Except Fault SuiteResult)
  seen : Trace
  signal : AbortSignal

/-- What may be done with a suite: its features are run, or a request to abort is made between runs. -/
inductive Session.Event where
  | run (features : List Feature)
  | abort (reason : Option String)

namespace Company

def perform (g : Company) (s : Suite) (w : Session) (features : List Feature) : Performance :=
  let (o, ended) := (s.run features).runWhile (g.serveSuite w.past) ⟨[], w.signal⟩
  ⟨o, ended.seen, ended.signal⟩

def step (g : Company) (s : Suite) (w : Session) : Session.Event → Session
  | .run features =>
    let p := g.perform s w features
    ⟨p.signal, w.past ++ [.run features p.seen]⟩
  | .abort reason => ⟨w.signal.request reason, w.past ++ [.abort reason]⟩

/-- Where a suite is after some events. -/
def after (g : Company) (s : Suite) (events : List Session.Event) : Session := events.foldl (g.step s) .fresh

/-- Whatever a run of the suite comes to ask, no one answers otherwise because of what was before the run. -/
def Oblivious (g : Company) (s : Suite) : Prop :=
  ∀ (features : List Feature) (seen rest : Trace) (m : Moment Request.Answer Bool),
    (s.run features).Leaves (seen ++ m :: rest) →
      ∀ past σ, g.answer past seen σ m.request = g.answer [] seen σ m.request

variable {α : Type}

section Shows
variable (g : Company) (past : List Episode)

/-- What is seen of a routine is added to what was seen before. -/
theorem exists_runs (p : Routine α) (w : Standing) :
    ∃ u, (p.runWith (g.serve past) w).2.seen = w.seen ++ u ∧
      p.Runs u (p.runWith (g.serve past) w).1 := by
  induction p generalizing w with
  | done a => exact ⟨[], (List.append_nil _).symm, .done a⟩
  | ask r next ih =>
    obtain ⟨u, hu, hrun⟩ := ih (g.serve past r w).1 (g.serve past r w).2
    exact ⟨_ :: u, hu.trans (List.append_assoc ..), .ask _ _ hrun⟩

theorem exists_overlap (jobs : List Job) (w : Standing) :
    ∃ u, (g.serveAll past jobs w).2.seen = w.seen ++ u ∧
      Overlap jobs (g.serveAll past jobs w).1 u := by
  induction jobs generalizing w with
  | nil => exact ⟨[], (List.append_nil _).symm, .nil⟩
  | cons j jobs ih =>
    obtain ⟨u, hu, hj⟩ := exists_runs g past j w
    obtain ⟨v, hv, hjobs⟩ := ih (j.runWith (g.serve past) w).2
    refine ⟨u ++ v, ?_, .cons hj hjobs (Shuffle.append u v)⟩
    rw [← List.append_assoc, ← hu]
    exact hv

/-- How a suite goes in company is one of the ways in which it can go. -/
theorem exists_leaves (p : SuiteRoutine α) (w : Standing) :
    ∃ u, (p.runWhile (g.serveSuite past) w).2.seen = w.seen ++ u ∧
      (∀ a, (p.runWhile (g.serveSuite past) w).1 = some a → p.Shows u a) ∧
      ((p.runWhile (g.serveSuite past) w).1 = none → p.Stalls u) := by
  induction p generalizing w with
  | done a => exact ⟨[], (List.append_nil _).symm, fun b hb => Option.some.inj hb ▸ .done a, nofun⟩
  | ask r next ih =>
    cases r with
    | single r =>
      obtain ⟨u, hu, hshows, hstalls⟩ := ih (g.serve past r w).1 (g.serve past r w).2
      exact ⟨_ :: u, hu.trans (List.append_assoc ..), fun a ha => .single _ _ (hshows a ha),
        fun hnone => .single _ _ (hstalls hnone)⟩
    | pool jobs =>
      obtain ⟨u, hu, hover⟩ := exists_overlap g past jobs w
      obtain ⟨v, hv, hshows, hstalls⟩ := ih (g.serveAll past jobs w).1 (g.serveAll past jobs w).2
      refine ⟨u ++ v, ?_, fun a ha => .pool hover (hshows a ha), fun hnone => .pool hover (hstalls hnone)⟩
      rw [← List.append_assoc, ← hu]
      exact hv
    | stall => exact ⟨[], (List.append_nil _).symm, nofun, fun _ => .stall⟩

theorem leaves_perform (s : Suite) (w : Session) (features : List Feature) :
    (s.run features).Leaves (g.perform s w features).seen := by
  obtain ⟨u, hu, hshows, hstalls⟩ := exists_leaves g w.past (s.run features) ⟨[], w.signal⟩
  obtain rfl : (g.perform s w features).seen = u := hu
  cases ho : ((s.run features).runWhile (g.serveSuite w.past) ⟨[], w.signal⟩).1 with
  | some o => exact .inl ⟨o, hshows o ho⟩
  | none => exact .inr (hstalls ho)

end Shows

variable {g : Company} {s : Suite} {past : List Episode}

/-- All that was asked up to here is answered as if nothing had been before. -/
def Agrees (g : Company) (past : List Episode) (t : Trace) : Prop :=
  ∀ (seen rest : Trace) (m : Moment Request.Answer Bool), t = seen ++ m :: rest →
    ∀ σ, g.answer past seen σ m.request = g.answer [] seen σ m.request

theorem Agrees.left {t u : Trace} (h : g.Agrees past (t ++ u)) : g.Agrees past t := by
  rintro seen rest m rfl
  exact h seen (rest ++ u) m (List.append_assoc ..)

/-- The request by which a trace was extended first. -/
theorem Agrees.serve {w : Standing} {r : Request} {u : Trace}
    (h : g.Agrees past ((g.serve [] r w).2.seen ++ u)) : g.serve past r w = g.serve [] r w := by
  have hr := h w.seen u ⟨r, _, _⟩ (List.append_assoc ..) w.signal
  rw [Company.serve, Company.serve, hr]

/-- Where all is answered as if nothing had been before, a routine goes as if nothing had been. -/
theorem runWith_eq (p : Routine α) (w : Standing)
    (h : g.Agrees past (p.runWith (g.serve []) w).2.seen) :
    p.runWith (g.serve past) w = p.runWith (g.serve []) w := by
  induction p generalizing w with
  | done a => rfl
  | ask r next ih =>
    obtain ⟨u, hu, _⟩ := exists_runs g [] (next (g.serve [] r w).1) (g.serve [] r w).2
    have hfirst : g.serve past r w = g.serve [] r w := Agrees.serve (hu ▸ h)
    rw [Program.runWith, Program.runWith, hfirst]
    exact ih _ _ h

theorem serveAll_eq (jobs : List Job) (w : Standing)
    (h : g.Agrees past (g.serveAll [] jobs w).2.seen) :
    g.serveAll past jobs w = g.serveAll [] jobs w := by
  induction jobs generalizing w with
  | nil => rfl
  | cons j jobs ih =>
    obtain ⟨u, hu, _⟩ := exists_overlap g [] jobs (j.runWith (g.serve []) w).2
    have hfirst := runWith_eq j w (Agrees.left (hu ▸ h))
    have hrest := ih (j.runWith (g.serve []) w).2 h
    simp only [serveAll, hfirst, hrest]

theorem runWhile_eq (p : SuiteRoutine α) (w : Standing)
    (h : g.Agrees past (p.runWhile (g.serveSuite []) w).2.seen) :
    p.runWhile (g.serveSuite past) w = p.runWhile (g.serveSuite []) w := by
  induction p generalizing w with
  | done a => rfl
  | ask r next ih =>
    cases r with
    | single r =>
      obtain ⟨u, hu, _⟩ := exists_leaves g [] (next (g.serve [] r w).1) (g.serve [] r w).2
      have hfirst : g.serve past r w = g.serve [] r w := Agrees.serve (hu ▸ h)
      rw [Program.runWhile, Program.runWhile, serveSuite, serveSuite, hfirst]
      exact ih _ _ h
    | pool jobs =>
      obtain ⟨u, hu, _⟩ := exists_leaves g [] (next (g.serveAll [] jobs w).1) (g.serveAll [] jobs w).2
      have hfirst : g.serveAll past jobs w = g.serveAll [] jobs w := serveAll_eq jobs w (Agrees.left (hu ▸ h))
      rw [Program.runWhile, Program.runWhile, serveSuite, serveSuite, hfirst]
      exact ih _ _ h
    | stall => rfl

/-- A run goes as the first run of the suite does, wherever the suite is. -/
theorem perform_eq_fresh (hg : g.Oblivious s) (w : Session) (features : List Feature) :
    g.perform s w features = g.perform s .fresh features := by
  -- The first request resets the signal, so from then on nothing but the past is different.
  obtain ⟨next, hnext⟩ : ∃ next, s.run features = .ask (.single .resetAbort) next := by
    rw [Suite.run, Suite.runAll_eq]
    exact ⟨_, rfl⟩
  have hagrees : g.Agrees w.past (g.perform s .fresh features).seen :=
    fun seen rest m ht σ => hg features seen rest m (ht ▸ leaves_perform g s .fresh features) w.past σ
  rw [perform, hnext] at hagrees
  have hrest := runWhile_eq (next ()) ⟨[⟨.resetAbort, (), false⟩], .clear⟩ hagrees
  rw [perform, perform, hnext]
  exact congrArg (fun p => Performance.mk p.1 p.2.seen p.2.signal) hrest

/-- A run comes to the same result, hands over the same records and leaves the same signal as a run of a
fresh suite does, or stalls as that one does, whatever runs there were before, however they ended, whatever
requests to abort there were in between, and whatever those who are asked went through before they met the
fresh suite. -/
theorem runs_afresh (hg : g.Oblivious s) (events : List Session.Event) (features : List Feature)
    (past : List Episode) :
    let again := g.perform s (g.after s events) features
    let first := g.perform s ⟨.clear, past⟩ features
    again.outcome = first.outcome ∧ again.seen.records = first.seen.records ∧
      again.signal = first.signal := by
  intro again first
  have h : again = first :=
    (perform_eq_fresh hg (g.after s events) features).trans (perform_eq_fresh hg ⟨.clear, past⟩ features).symm
  rw [h]
  exact ⟨rfl, rfl, rfl⟩

end Company

/-- One hook is afraid of any reason to abort, another requests an abort. Everyone else is content. -/
def Sample.company : Company where
  respond _ _ σ
    | .call c _ =>
      if c.id = 1 then (σ.reason.map (.ofKind "RuntimeError"), σ)
      else (none, σ.request (some "operator stop"))
    | .construct .. => (.ok ⟨.null, []⟩, σ)
    | .emit _ | .log _ | .tie .. | .flush => (none, σ)
    | .attach _ | .abort _ | .resetAbort => ((), σ)
    | .aborted => (σ.requested, σ)

theorem Company.runs_afresh_sample :
    let s := Sample.suite [Sample.hook .beforeFeature 1 "open", Sample.hook .afterFeature 2 "close"] 1 false
    let features : List Feature := [⟨"bookings", [], [], none⟩, ⟨"payments", [], [], none⟩]
    let w := Sample.company.after s [.run features, .abort (some "lunch")]
    let again := Sample.company.perform s w features
    w.signal = ⟨true, some "operator stop"⟩ ∧
      again.outcome = (Sample.company.perform s ⟨.clear, w.past⟩ features).outcome ∧
      again.seen.records = (Sample.company.perform s ⟨.clear, w.past⟩ features).seen.records ∧
      (again.outcome.bind (·.toOption)).map (fun r => r.features.map (·.status)) =
        some [.passed, .skipped] := by
  intro s features w again
  obtain ⟨houtcome, hrecords, _⟩ := runs_afresh (g := Sample.company) (s := s)
    (fun _ _ _ _ _ _ _ => rfl) [.run features, .abort (some "lunch")] features w.past
  exact ⟨by decide +kernel, houtcome, hrecords, by decide +kernel⟩

end Rehearsal
