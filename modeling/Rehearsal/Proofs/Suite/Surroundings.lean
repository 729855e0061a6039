import Rehearsal.Proofs.Surroundings
import Rehearsal.Proofs.Suite.Act

/-! Suites in surroundings that are given by tables, in which the jobs of a pool run one after the
other. What such surroundings keep in the run of a scenario they keep in the run of a suite. -/

namespace Rehearsal
set_option autoImplicit false

namespace Surroundings

variable {α : Type} (w : Surroundings)

/-- The ends of jobs that run one after the other. -/
def serveAll : List Job → Tally → List (Except Fault ScenarioResult) × Tally
  | [], s => ([], s)
  | j :: js, s =>
    let (o, s) := j.runWith w.serve s
    let (ends, s) := serveAll js s
    (o :: ends, s)

def traceAll : List Job → Tally → Trace
  | [], _ => []
  | j :: js, s => j.record w.serve (·.requested) s ++ traceAll js (j.runWith w.serve s).2

def serveSuite : (r : SuiteRequest) → Tally → Option (r.Answer × Tally)
  | .single r, s => some (w.serve r s)
  | .pool jobs, s => some (w.serveAll jobs s)
  | .stall, _ => none

/-- What the program of a suite comes to, unless it stalls. -/
def comesTo (p : SuiteRoutine α) (s : Tally) : Option α := (p.runWhile w.serveSuite s).1

/-- What can be seen of the program of a suite. -/
def showing : SuiteRoutine α → Tally → Trace
  | .done _, _ => []
  | .ask (.single r) next, s =>
    ⟨r, (w.serve r s).1, (w.serve r s).2.requested⟩ :: showing (next (w.serve r s).1) (w.serve r s).2
  | .ask (.pool jobs) next, s =>
    w.traceAll jobs s ++ showing (next (w.serveAll jobs s).1) (w.serveAll jobs s).2
  | .ask .stall _, _ => []

theorem overlap_traceAll (jobs : List Job) (s : Tally) :
    Overlap jobs (w.serveAll jobs s).1 (w.traceAll jobs s) := by
  induction jobs generalizing s with
  | nil => exact .nil
  | cons j js ih => exact .cons (Program.runs_record ..) (ih _) (Shuffle.append _ _)

variable {w} in
theorem shows_showing {p : SuiteRoutine α} {s : Tally} {a : α} (h : w.comesTo p s = some a) :
    p.Shows (w.showing p s) a := by
  induction p generalizing s with
  | done b =>
    cases h
    exact .done _
  | ask q next ih =>
    cases q with
    | single r => exact .single _ _ (ih _ h)
    | pool jobs => exact .pool (w.overlap_traceAll jobs s) (ih _ h)
    | stall => cases h

variable {w} in
theorem exists_shows_showing {p : SuiteRoutine α} {s : Tally} (h : (w.comesTo p s).isSome = true) :
    ∃ a, w.comesTo p s = some a ∧ p.Shows (w.showing p s) a := by
  obtain ⟨a, ha⟩ := Option.isSome_iff_exists.1 h
  exact ⟨a, ha, shows_showing ha⟩

variable {w} in
theorem stalls_showing {p : SuiteRoutine α} {s : Tally} (h : w.comesTo p s = none) :
    p.Stalls (w.showing p s) := by
  induction p generalizing s with
  | done b => cases h
  | ask q next ih =>
    cases q with
    | single r => exact .single _ _ (ih _ h)
    | pool jobs => exact .pool (w.overlap_traceAll jobs s) (ih _ h)
    | stall => exact .stall

/-- What holds of a trace as soon as it holds of its moments holds of what can be seen of a suite. -/
theorem forall_showing {P : Moment Request.Answer Bool → Prop}
    (h : ∀ {β : Type} (p : Routine β) (s : Tally), ∀ m ∈ p.record w.serve (·.requested) s, P m)
    (p : SuiteRoutine α) (s : Tally) : ∀ m ∈ w.showing p s, P m := by
  have hall : ∀ jobs s, ∀ m ∈ w.traceAll jobs s, P m := by
    intro jobs
    induction jobs with
    | nil => exact fun _ _ hm => nomatch hm
    | cons j js ih => exact fun s m hm => (List.mem_append.1 hm).elim (h j s m) (ih _ m)
  induction p generalizing s with
  | done a => exact fun _ hm => nomatch hm
  | ask q next ih =>
    cases q with
    | single r =>
      refine List.forall_mem_cons.2 ⟨?_, ih _ _⟩
      exact h (Program.request r) s _ List.mem_cons_self
    | pool jobs => exact fun m hm => (List.mem_append.1 hm).elim (hall jobs s m) (ih _ _ m)
    | stall => exact fun _ hm => nomatch hm

variable {w} in
theorem tame_showing (hw : w.Tame) (p : SuiteRoutine α) (s : Tally) :
    (w.showing p s).tame = true :=
  List.all_eq_true.2 (w.forall_showing (fun p s => List.all_eq_true.1 (tame_record p hw s)) p s)

theorem flushed_showing (p : SuiteRoutine α) (s : Tally) : (w.showing p s).flushed = true := by
  refine List.all_eq_true.2 (w.forall_showing (fun p => ?_) p s)
  induction p with
  | done a => exact fun _ _ hm => nomatch hm
  | ask r next ih =>
    refine fun s => List.forall_mem_cons.2 ⟨?_, ih _ _⟩
    cases r <;> rfl

/-- A sink that never fails takes every record. -/
theorem taken_showing (h : ∀ n, w.sink n = none) (p : SuiteRoutine α) (s : Tally) :
    (w.showing p s).taken = true := by
  have hall : ∀ m ∈ w.showing p s, ∀ e, m.handed? = some e → e.2.isNone = true := by
    refine w.forall_showing (fun p => ?_) p s
    induction p with
    | done a => exact fun _ _ hm => nomatch hm
    | ask r next ih =>
      refine fun s => List.forall_mem_cons.2 ⟨?_, ih _ _⟩
      rintro e he
      cases r with
      | emit r =>
        cases he
        exact Option.isNone_iff_eq_none.2 (h _)
      | _ => cases he
  rw [Trace.taken, List.all_eq_true]
  intro e he
  obtain ⟨m, hm, hhanded⟩ := List.mem_filterMap.1 he
  exact hall m hm e hhanded

theorem signal_record {β : Type} (p : Routine β) (s : Tally) :
    Trace.signal s.requested (p.record w.serve (·.requested) s) =
      (p.runWith w.serve s).2.requested := by
  induction p generalizing s with
  | done a => rfl
  | ask r next ih => exact ih _ _

theorem heeds_traceAll (jobs : List Job) (s : Tally) :
    Trace.heeds s.requested (w.traceAll jobs s) = true ∧
      Trace.signal s.requested (w.traceAll jobs s) = (w.serveAll jobs s).2.requested := by
  induction jobs generalizing s with
  | nil => exact ⟨rfl, rfl⟩
  | cons j js ih =>
    have hsignal := w.signal_record j s
    rw [traceAll, Trace.heeds_append, Trace.signal_append, hsignal, w.heeds_record j s]
    exact ih _

theorem heeds_showing (p : SuiteRoutine α) (s : Tally) :
    Trace.heeds s.requested (w.showing p s) = true := by
  induction p generalizing s with
  | done a => rfl
  | ask q next ih =>
    cases q with
    | single r =>
      have hfirst := w.heeds_record (Program.request r) s
      exact Bool.and_eq_true_iff.2 ⟨(Bool.and_eq_true_iff.1 hfirst).1, ih _ _⟩
    | pool jobs =>
      obtain ⟨hheeds, hsignal⟩ := w.heeds_traceAll jobs s
      rw [showing, Trace.heeds_append, hheeds, hsignal]
      exact ih _ _
    | stall => rfl

theorem smooth_showing (hw : w.Tame) (h : ∀ n, w.sink n = none) (p : SuiteRoutine α)
    (s : Tally) : Trace.Smooth s.requested (w.showing p s) :=
  ⟨tame_showing hw p s, w.taken_showing h p s, w.heeds_showing p s⟩

end Surroundings

namespace Sample

/-- A suite that knows hooks and no steps, and hands records over. -/
def suite (hooks : List Hook) (workers : Nat) (strict : Bool) : Suite where
  registry := ⟨[], hooks, true⟩
  root := (executor hooks).root
  matcher := .standard
  ties := .nobody
  policy := (executor hooks).policy
  logger := .silent
  hasSink := true
  workers := workers
  strict := strict

def feature (name : String) : Feature := ⟨name, [scenario], [], none⟩

/-- A feature with the same scenario twice. -/
def doubled (name : String) : Feature := ⟨name, [scenario, scenario], [], none⟩

theorem suite_orderly {hooks : List Hook} {workers : Nat} {strict : Bool} {features : List Feature}
    (h : ∀ hook ∈ hooks, hook.tags = none) : (suite hooks workers strict).Orderly features where
  feature _ _ _ := ⟨_, Registry.lookup_of_unfiltered h⟩
  scenario _ _ _ _ _ := ⟨_, Registry.lookup_of_unfiltered h⟩
  reports := CoercionTable.reports_standard

end Sample
end Rehearsal
