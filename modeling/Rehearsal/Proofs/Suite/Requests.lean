import Rehearsal.Proofs.Scenario.Requests
import Rehearsal.Proofs.Suite.Parts

/-! What the run of a suite asks for around its scenarios, and for each of them. Hooks of a suite or a
feature are called with a scope and nothing else, and nothing is constructed for them. An abort is requested
where one of them is interrupted, or where the loop over the features was. -/

namespace Rehearsal
set_option autoImplicit false

/-- All that a suite comes to around its scenarios is within the terms, where hooks are told of some scopes
only. -/
structure SuiteRequest.Framing (C : Scope → Prop) (T : Terms SuiteRequest.Answer Fault) : Prop where
  emit : ∀ r, T.asks (.single (.emit r))
  log : ∀ m, T.asks (.single (.log m))
  call : ∀ k scope, C scope → T.asks (.single (.call k [.scope scope]))
  aborted : T.asks (.single .aborted)
  interrupted : ∀ k args f, T.answers (.single (.call k args)) (some f) → f.family = .interrupt →
    ∀ reason, T.asks (.single (.abort reason))
  refused : ∀ r f, T.answers (.single (.emit r)) (some f) → T.raises f
  unlogged : ∀ m f, T.answers (.single (.log m)) (some f) → T.raises f
  exited : ∀ k args f, T.answers (.single (.call k args)) (some f) → f.family = .exit → T.raises f

/-- What is asked for around the scenarios is as is said, and so it is in each job of a pool. A job ends
as is said. -/
def SuiteRequest.asking (P : Request → Prop) (W : Except Fault ScenarioResult → Prop) :
    Terms SuiteRequest.Answer Fault where
  asks
    | .single r => P r
    | .pool jobs => ∀ j ∈ jobs, Program.Asks P (fun _ => False) (fun _ _ => True) W j
    | .stall => True
  answers
    | .single _ => fun _ => True
    | .pool _ => fun ends : List (Except Fault ScenarioResult) => ∀ o ∈ ends, W o
    | .stall => fun _ => True
  raises _ := True

/-- Nothing is asked for by way of a pool, and nothing is waited for without end. -/
def SuiteRequest.unpooled : Terms SuiteRequest.Answer Fault :=
  .asking fun
    | .single _ => True
    | _ => False

theorem SuiteRequest.framing_unpooled : Framing (fun _ => True) unpooled where
  emit _ := trivial
  log _ := trivial
  call _ _ _ := trivial
  aborted := trivial
  interrupted _ _ _ _ _ _ := trivial
  refused _ _ _ := trivial
  unlogged _ _ _ := trivial
  exited _ _ _ _ _ := trivial

namespace Program.Asks
variable {α : Type} {P : Request → Prop} {W : Except Fault ScenarioResult → Prop} {Q : α → Prop}

/-- A routine asks in a suite for what it asks for on its own. -/
theorem inSuite {p : Routine α} (hp : Asks P (fun _ => False) (fun _ _ => True) Q p) :
    Asks (SuiteRequest.asking P W).asks (fun _ => False) (SuiteRequest.asking P W).answers Q p.inSuite := by
  induction hp with
  | done ha => exact .done ha
  | stop hr => exact hr.elim
  | ask hr _ ih => exact .ask hr fun x _ => ih x trivial

/-- What is seen of a suite was asked for, and the suite comes to a value as is said. -/
theorem value_of_shows {p : SuiteRoutine α} {t : Trace} {a : α}
    (hp : Asks (SuiteRequest.asking P W).asks (fun _ => False) (SuiteRequest.asking P W).answers Q p)
    (h : Shows p t a) : (∀ m ∈ t, P m.request) ∧ Q a := by
  induction h with
  | done a =>
    cases hp with
    | done ha => exact ⟨List.forall_mem_nil _, ha⟩
  | single x b _ ih =>
    cases hp with
    | stop hr => exact hr.elim
    | ask hr hnext =>
      obtain ⟨hasked, ha⟩ := ih (hnext x trivial)
      exact ⟨List.forall_mem_cons.2 ⟨hr, hasked⟩, ha⟩
  | @pool _ _ ends _ _ _ hover _ ih =>
    cases hp with
    | stop hr => exact hr.elim
    | ask hjobs hnext =>
      have hjob : ∀ {j : Job} {u : Trace} {o : Except Fault ScenarioResult},
          Asks P (fun _ => False) (fun _ _ => True) W j → j.Runs u o →
            (∀ m ∈ u, P m.request) ∧ W o :=
        fun hj hrun => value_of_runs (T := (.asking P : Terms _ Fault)) hj hrun fun _ _ => trivial
      have hends : ∀ o ∈ ends, W o := by
        intro o ho
        obtain ⟨j, hj, u, _, hrun⟩ := hover.exists_end ho
        exact (hjob (hjobs j hj) hrun).2
      obtain ⟨hasked, ha⟩ := ih (hnext _ hends)
      refine ⟨List.forall_mem_append.2 ⟨fun m hm => ?_, hasked⟩, ha⟩
      obtain ⟨j, hj, u, o, hrun, hmu⟩ := hover.exists_job hm
      exact (hjob (hjobs j hj) hrun).1 m hmu

end Program.Asks

namespace Suite
variable {s : Suite} {T : Terms SuiteRequest.Answer Fault} {S : SuiteRequest → Prop} {α : Type}

theorem yields_perform {r : Request} {Q : r.Answer → Prop} (hr : T.asks (.single r))
    (hQ : ∀ x, T.answers (.single r) x → Q x) : Yields T S Q (Action.perform r) :=
  yields_lift (Program.Asks.request (r := SuiteRequest.single r) hr hQ)

theorem confined_perform {r : Request} (hr : T.asks (.single r)) : Confined T (Action.perform r) :=
  yields_perform hr fun _ _ => trivial

theorem confined_proceed {f : Option Fault} (hf : ∀ e, f = some e → T.raises e) :
    Confined T (Action.proceed f) := by
  cases f with
  | none => exact confined_pure _
  | some f => exact yields_throw (hf f rfl)

theorem confined_settle {r : Except Fault α} (hr : ∀ e, r = .error e → T.raises e) :
    Confined T (Action.settle r) := by
  cases r with
  | ok a => exact confined_pure a
  | error f => exact yields_throw (hr f rfl)

section Framing
variable {C : Scope → Prop} (hT : SuiteRequest.Framing C T)
include hT

theorem confined_emit (r : Record) : Confined T (s.emit r) := by
  unfold emit
  split
  · refine yields_bind (yields_perform (hT.emit r) fun _ => id) fun f hf => ?_
    exact confined_proceed fun e he => hT.refused r e (he ▸ hf)
  · exact confined_pure _

theorem confined_log {level : LogLevel} {message : String} {fields : List (String × Datum)} :
    Confined T (s.log level message fields) := by
  unfold log
  split
  · refine yields_bind (yields_perform (hT.log _) fun _ => id) fun f hf => ?_
    exact confined_proceed fun e he => hT.unlogged _ e (he ▸ hf)
  · exact confined_pure _

theorem confined_runHook {scope : Scope} {h : Hook} (hscope : C scope) :
    Confined T (s.runHook scope h) := by
  have hinvoke : Confined T (s.invoke h.callable scope h.name) := by
    refine yields_bind (yields_perform (hT.call _ _ hscope) fun _ => id) fun f hf => ?_
    rcases f with _ | f
    · exact confined_pure _
    dsimp only
    split
    · exact confined_pure _
    · exact confined_pure _
    · rename_i hi
      exact confined_bind (confined_perform (hT.interrupted _ _ _ hf hi _)) fun _ => confined_pure _
    · rename_i he
      exact yields_throw (hT.exited _ _ _ hf he)
  refine confined_bind hinvoke fun _ => confined_bind (confined_emit hT _) fun _ => ?_
  split
  · exact confined_bind (confined_log hT) fun _ => confined_pure _
  · exact confined_pure _

theorem confined_runHookList {scope : Scope} {hs : List Hook} (hscope : C scope) :
    Confined T (s.runHookList scope hs) := by
  induction hs with
  | nil => exact confined_pure _
  | cons h hs ih =>
    rw [runHookList]
    refine confined_bind (confined_runHook hT hscope) fun r => ?_
    split
    · exact confined_pure _
    · exact confined_bind ih fun _ => confined_pure _

theorem confined_runHooks {phase : HookPhase} {scope : Scope} (hscope : C scope)
    (hl : ∀ f, s.registry.lookup phase scope.tags = .error f → T.raises f) :
    Confined T (s.runHooks phase scope) :=
  confined_bind (confined_settle hl) fun _ => confined_runHookList hT hscope

theorem confined_skipScenarios {f : Feature} {ps : List (Scenario × Nat)} :
    Confined T (s.skipScenarios f ps) := by
  induction ps with
  | nil => exact confined_pure _
  | cons p ps ih =>
    exact confined_bind (confined_emit hT _) fun _ => confined_bind ih fun _ => confined_pure _

theorem confined_skipFeature {f : Feature} : Confined T (s.skipFeature f) := by
  refine confined_bind (confined_skipScenarios hT) fun _ => ?_
  exact confined_bind (confined_emit hT _) fun _ => confined_pure _

theorem confined_salvage {features : List Feature}
    (habort : ∀ reason, T.asks (.single (.abort reason))) : Confined T (s.salvage features) := by
  have hskip : ∀ fs : List Feature, Confined T (s.skipFeatures fs) := by
    intro fs
    induction fs with
    | nil => exact confined_pure _
    | cons f fs ih =>
      refine confined_bind (confined_skipFeature hT) fun _ => ?_
      exact confined_bind (confined_modify _) fun _ => ih
  refine confined_bind (confined_perform (habort _)) fun _ => confined_bind confined_get fun _ => ?_
  exact confined_bind (confined_log hT) fun _ => hskip _

/-- What comes after the scenarios of a feature. -/
theorem confined_afterFeature {f : Feature} (scenarios : List ScenarioResult) (hooks : List HookResult)
    (hscope : ∀ r, C (.feature f (some r))) (hraises : ∀ e, T.raises e) :
    Confined T (do
      let after ← s.runHooks .afterFeature (.feature f (some (featureResult f scenarios hooks)))
      s.emit (.feature (featureResult f scenarios (hooks ++ after)))
      return featureResult f scenarios (hooks ++ after)) := by
  refine confined_bind (confined_runHooks hT (hscope _) fun e _ => hraises e) fun _ => ?_
  exact confined_bind (confined_emit hT _) fun _ => confined_pure _

theorem confined_recover {features : List Feature} (habort : ∀ reason, T.asks (.single (.abort reason)))
    {r : Except Fault Unit} : Confined T (s.recover features r) := by
  cases r with
  | ok _ => exact confined_pure _
  | error f =>
    rw [recover]
    split
    · have hsalvage : Confined T (s.salvage features) := confined_salvage hT habort
      exact fun l => (yields_observe hsalvage l).imp (fun _ => id) fun _ hp => ⟨fun _ _ => trivial, hp.2⟩
    · exact confined_pure _

theorem confined_finish (hflush : T.asks (.single .flush))
    (hstuck : ∀ f, T.answers (.single .flush) (some f) → T.raises f) {r : SuiteResult} :
    Confined T (s.finish r) := by
  have hflushed : Confined T s.flush := by
    unfold flush
    split
    · refine yields_bind (yields_perform hflush fun _ => id) fun f hf => ?_
      exact confined_proceed fun e he => hstuck e (he ▸ hf)
    · exact confined_pure _
  refine confined_bind (confined_emit hT _) fun _ => confined_bind hflushed fun _ => ?_
  exact confined_bind (confined_log hT) fun _ => confined_pure _

theorem confined_result {hooks : List HookResult} : Confined T (s.result hooks) :=
  confined_bind confined_get fun _ => confined_bind (confined_perform hT.aborted) fun _ =>
    confined_pure _

theorem confined_close {features : List Feature} {hooks : List HookResult} {outcome : Except Fault Unit}
    (hscope : ∀ r, C (.suite features (some r))) (hflush : T.asks (.single .flush))
    (hraises : ∀ f, T.raises f) : Confined T (s.close features hooks outcome) := by
  refine confined_bind (confined_result hT) fun _ => ?_
  refine confined_bind (confined_runHooks hT (hscope _) fun e _ => hraises e) fun _ => ?_
  refine confined_bind (confined_settle fun e _ => hraises e) fun _ => ?_
  exact confined_bind (confined_result hT) fun _ => confined_finish hT hflush fun e _ => hraises e

theorem confined_opening {features : List Feature} (hscope : C (.suite features none))
    (hreset : T.asks (.single .resetAbort)) (hraises : ∀ e, T.raises e) :
    Confined T (s.opening features) := by
  refine confined_bind (confined_perform hreset) fun _ => confined_bind (confined_log hT) fun _ => ?_
  exact confined_runHooks hT hscope fun e _ => hraises e

theorem confined_closing {features : List Feature} (hscope : ∀ r, C (.suite features (some r)))
    (habort : ∀ reason, T.asks (.single (.abort reason))) (hflush : T.asks (.single .flush))
    (hraises : ∀ e, T.raises e) {hooks : List HookResult} {outcome : Except Fault Unit} :
    Confined T (s.closing features hooks outcome) :=
  confined_bind (confined_recover hT habort) fun _ => confined_close hT hscope hflush hraises

end Framing

/-- Scenarios that are run in order make no use of a pool. -/
theorem confined_runInOrder {f : Feature} {ps : List (Scenario × Nat)} :
    Confined SuiteRequest.unpooled (s.runInOrder f ps) := by
  have hsuite : ∀ {β : Type} (p : Routine β), Program.Asks SuiteRequest.unpooled.asks (fun _ => False)
      SuiteRequest.unpooled.answers (fun _ => True) p.inSuite := by
    intro β p
    induction p with
    | done a => exact .done trivial
    | ask r next ih => exact .ask trivial fun x _ => ih x
  induction ps with
  | nil => exact confined_pure _
  | cons p ps ih =>
    have hjob : Confined SuiteRequest.unpooled (Action.job (s.scenarioJob f p.1 p.2)) :=
      confined_bind (yields_lift (hsuite _)) fun _ => confined_settle fun _ _ => trivial
    exact confined_bind hjob fun _ => confined_bind ih fun _ => confined_pure _

section Job
variable {R : Terms Request.Answer Fault} {f : Feature} {c : Scenario} {index : Nat}

/-- A scenario is run unless an abort is requested. -/
theorem asks_scenarioJob_of_run {S : Request → Prop} (hR : Request.Spoken R) (haborted : R.asks .aborted)
    (hrun : Program.Asks R.asks S R.answers (fun _ => True)
      (s.executor.run c (some f) (some (f.idOf index c)))) :
    Program.Asks R.asks S R.answers (fun _ => True) (s.scenarioJob f c index) := by
  have hpoll : Program.Asks R.asks S R.answers (fun _ => True) Routine.aborted :=
    .request haborted fun _ _ => trivial
  refine hpoll.bind fun b _ => ?_
  split
  · split
    · have hemit : Program.Asks R.asks S R.answers (fun _ => True)
          (Routine.emit (.scenario (notRun f c index))) := .request (hR.emit _) fun _ _ => trivial
      refine hemit.bind fun x _ => ?_
      split <;> exact .done trivial
    · exact .done trivial
  · exact hrun

theorem asks_scenarioJob (hR : Request.Entire R) (hm : s.executor.Matches R) :
    Program.Asks R.asks (fun _ => False) R.answers (fun _ => True) (s.scenarioJob f c index) :=
  asks_scenarioJob_of_run hR.toSpoken hR.aborted (Executor.asks_run (Executor.confined_runCase hR hm))

theorem asks_scenarioJob_unbuilt (hR : Request.Spoken R) (haborted : R.asks .aborted)
    (hraises : ∀ f, R.raises f) :
    Program.Asks R.asks (fun r => r.builds = true) R.answers (fun _ => True)
      (s.scenarioJob f c index) :=
  asks_scenarioJob_of_run hR haborted (Executor.asks_run (Executor.yields_runCase_unbuilt hR hraises))

end Job
end Suite
end Rehearsal
