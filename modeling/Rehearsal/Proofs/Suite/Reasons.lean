import Rehearsal.Proofs.Scenario.Reasons
import Rehearsal.Proofs.Suite.Requests
import Rehearsal.Proofs.Suite.Surroundings

/-! Why a suite failed. Scenarios tell it of their own runs, in order or in a pool; what was not started
did not fail. Around the scenarios there are hooks only, and a hook that fails brings an error. So every
result in the tree, and every result that is shown or handed over on the way to it, says why it failed,
apart from undefined steps that count as failures. -/

namespace Rehearsal
set_option autoImplicit false

namespace Suite
variable {s : Suite} {f : Feature}

/-- What a suite asks for says why it failed, and so do the ends of its jobs. -/
abbrev explaining (s : Suite) : Terms SuiteRequest.Answer Fault :=
  SuiteRequest.asking (Request.Explained s.policy.undefinedFails) fun o =>
    ∀ r, o = .ok r → r.Explained s.policy.undefinedFails

/-- The results that are kept say why they failed. -/
abbrev Explains (s : Suite) (l : List FeatureResult) : Prop :=
  ∀ r ∈ l, r.Explained s.policy.undefinedFails

/-- An action asks for what says why it failed, whatever it begins with, and comes to a value as is said. -/
abbrev Reasoned {α : Type} (s : Suite) (Q : α → Prop) (x : Action α) : Prop :=
  Secures s.explaining s.Explains (fun _ => True) (fun a _ => Q a) x

theorem reasoned_perform {r : Request} (hr : r.Explained s.policy.undefinedFails) :
    s.Reasoned (fun _ => True) (Action.perform r) :=
  (secures_lift (P := fun _ => True) (Program.Asks.request (r := SuiteRequest.single r)
    (Q := fun _ => True) hr fun _ _ => trivial)).imp (fun _ => id) fun _ _ _ _ => trivial

theorem reasoned_settle {α : Type} {Q : α → Prop} {r : Except Fault α} (hr : ∀ a, r = .ok a → Q a) :
    s.Reasoned Q (Action.settle r) := by
  cases r with
  | ok a => exact secures_pure fun _ _ _ => hr a rfl
  | error e => exact secures_throw

theorem reasoned_collect {α : Type} {Q : α → Prop} {r : Except Fault α} (hr : ∀ a, r = .ok a → Q a) :
    s.Reasoned Q (Action.collect r) := by
  cases r with
  | ok a => exact secures_pure fun _ _ _ => hr a rfl
  | error e =>
    rw [Action.collect]
    split
    · exact fun _ _ _ => .ask trivial fun x _ => Empty.elim x
    · exact secures_throw

theorem reasoned_proceed {e : Option Fault} : s.Reasoned (fun _ => True) (Action.proceed e) := by
  cases e with
  | none => exact minds_pure _
  | some e => exact secures_throw

theorem reasoned_emit {r : Record} (hr : r.Explained s.policy.undefinedFails) :
    s.Reasoned (fun _ => True) (s.emit r) := by
  unfold emit
  split
  · exact minds_bind (reasoned_perform hr) fun _ => reasoned_proceed
  · exact minds_pure _

theorem reasoned_log {level : LogLevel} {message : String} {fields : List (String × Datum)} :
    s.Reasoned (fun _ => True) (s.log level message fields) := by
  unfold log
  split
  · exact minds_bind (reasoned_perform trivial) fun _ => reasoned_proceed
  · exact minds_pure _

section Hooks
variable {scope : Scope} (hscope : scope.Explained s.policy.undefinedFails)
include hscope

theorem reasoned_invoke {callable : Callable} {place : String} :
    s.Reasoned (fun r => r.1 ≠ .skipped ∧ (r.2 = none ↔ r.1 = .passed))
      (s.invoke callable scope place) := by
  have hcall : (Request.call callable [.scope scope]).Explained s.policy.undefinedFails := by
    intro scope' hm
    obtain rfl : scope' = scope := by simpa using hm
    exact hscope
  refine secures_bind (reasoned_perform hcall) fun e => ?_
  change Option Fault at e
  rcases e with _ | e
  · exact secures_pure fun _ _ _ => by simp
  dsimp only
  split
  · exact secures_pure fun _ _ _ => by simp
  · exact secures_pure fun _ _ _ => by simp
  · refine secures_bind (reasoned_perform (r := .abort _) trivial) fun _ => ?_
    exact secures_pure fun _ _ _ => by simp
  · exact secures_throw

theorem reasoned_runHook {h : Hook} : s.Reasoned HookResult.Sound (s.runHook scope h) := by
  refine secures_bind_value (reasoned_invoke hscope) fun r hr => ?_
  refine secures_bind (reasoned_emit (show HookResult.Sound _ from hr)) fun _ => ?_
  split
  · exact secures_bind reasoned_log fun _ => secures_pure fun _ _ _ => hr
  · exact secures_pure fun _ _ _ => hr

theorem reasoned_runHookList {hs : List Hook} :
    s.Reasoned (fun rs => ∀ r ∈ rs, r.Sound) (s.runHookList scope hs) := by
  induction hs with
  | nil => exact secures_pure fun _ _ _ => List.forall_mem_nil _
  | cons h hs ih =>
    rw [runHookList]
    refine secures_bind_value (reasoned_runHook hscope) fun r hr => ?_
    split
    · exact secures_pure fun _ _ _ => List.forall_mem_singleton.2 hr
    · exact secures_bind_value ih fun rs hrs => secures_pure fun _ _ _ =>
        List.forall_mem_cons.2 ⟨hr, hrs⟩

theorem reasoned_runHooks {phase : HookPhase} :
    s.Reasoned (fun rs => ∀ r ∈ rs, r.Sound) (s.runHooks phase scope) :=
  secures_bind (reasoned_settle fun _ _ => trivial) fun _ => reasoned_runHookList hscope

end Hooks

/-- A scenario that was not started did not fail. -/
theorem explained_notRun {b : Bool} (f : Feature) (c : Scenario) (index : Nat) :
    (notRun f c index).Explained b := by
  have hsteps : ∀ k ∈ (notRun f c index).steps, k.Explained b ∧ k.undefined = false := by
    intro k hk
    obtain ⟨p, _, rfl⟩ := List.mem_map.1 hk
    exact ⟨StepResult.explained_skipped _ _ _, rfl⟩
  refine ⟨fun _ => ⟨nofun, ?_⟩, fun k hk => (hsteps k hk).1, List.forall_mem_nil _⟩
  rintro ⟨k, hk, hu, _⟩
  exact absurd ((hsteps k hk).2.symm.trans hu) Bool.false_ne_true

theorem asks_scenarioJob_explained (c : Scenario) (index : Nat) :
    Program.Asks (Request.Explained s.policy.undefinedFails) (fun _ => False) (fun _ _ => True)
      (fun o => ∀ r, o = .ok r → r.Explained s.policy.undefinedFails) (s.scenarioJob f c index) := by
  have hr : (notRun f c index).Explained s.policy.undefinedFails := explained_notRun f c index
  have hok : ∀ r, Except.ok (ε := Fault) (notRun f c index) = .ok r →
      r.Explained s.policy.undefinedFails := fun _ h => Except.ok.inj h ▸ hr
  refine .ask trivial fun aborted _ => ?_
  change Bool at aborted
  cases aborted with
  | false => exact s.executor.asks_run_explained c (some f) (some (f.idOf index c))
  | true =>
    change Program.Asks _ _ _ _ (ite _ _ _)
    split
    · refine .ask hr fun e _ => ?_
      change Option Fault at e
      cases e with
      | none => exact .done hok
      | some e => exact .done nofun
    · exact .done hok

theorem reasoned_runInOrder {ps : List (Scenario × Nat)} :
    s.Reasoned (fun rs => ∀ r ∈ rs, r.Explained s.policy.undefinedFails) (s.runInOrder f ps) := by
  induction ps with
  | nil => exact secures_pure fun _ _ _ => List.forall_mem_nil _
  | cons p ps ih =>
    have hjob : s.Reasoned (·.Explained s.policy.undefinedFails)
        (Action.job (s.scenarioJob f p.1 p.2)) := by
      have hrun := secures_lift (T := s.explaining) (I := s.Explains) (P := fun _ => True)
        (asks_scenarioJob_explained (s := s) (f := f) p.1 p.2).inSuite
      exact secures_bind_value (hrun.imp (fun _ => id) fun _ _ _ h => h.1) fun _ => reasoned_settle
    refine secures_bind_value hjob fun r hr => secures_bind_value ih fun rs hrs => ?_
    exact secures_pure fun _ _ _ => List.forall_mem_cons.2 ⟨hr, hrs⟩

theorem reasoned_runInPool :
    s.Reasoned (fun rs => ∀ r ∈ rs, r.Explained s.policy.undefinedFails) (s.runInPool f) := by
  have hjobs : ∀ j ∈ s.jobs f, Program.Asks (Request.Explained s.policy.undefinedFails)
      (fun _ => False) (fun _ _ => True)
      (fun o => ∀ r, o = .ok r → r.Explained s.policy.undefinedFails) j := by
    intro j hj
    obtain ⟨p, _, rfl⟩ := List.mem_map.1 hj
    exact asks_scenarioJob_explained p.1 p.2
  have hpool : s.Reasoned (fun ends : List (Except Fault ScenarioResult) =>
      ∀ o ∈ ends, ∀ r, o = .ok r → r.Explained s.policy.undefinedFails) (Action.pool (s.jobs f)) :=
    (secures_lift (P := fun _ => True) (Program.Asks.request (r := SuiteRequest.pool (s.jobs f))
      hjobs fun _ => id)).imp (fun _ => id) fun _ _ _ h => h.1
  rw [runInPool_eq]
  refine secures_bind_value hpool fun ends hends => ?_
  induction ends with
  | nil => exact secures_pure fun _ _ _ => List.forall_mem_nil _
  | cons o ends ih =>
    obtain ⟨ho, hrest⟩ := List.forall_mem_cons.1 hends
    rw [List.mapM_cons]
    refine secures_bind_value (reasoned_collect ho) fun r hr => ?_
    refine secures_bind_value (ih hrest) fun rs hrs => ?_
    exact secures_pure fun _ _ _ => List.forall_mem_cons.2 ⟨hr, hrs⟩

theorem reasoned_runScenarios :
    s.Reasoned (fun rs => ∀ r ∈ rs, r.Explained s.policy.undefinedFails) (s.runScenarios f) := by
  unfold runScenarios
  split
  · exact reasoned_runInPool
  · exact reasoned_runInOrder

theorem reasoned_skipScenarios {ps : List (Scenario × Nat)} :
    s.Reasoned (fun rs => ∀ r ∈ rs, r.Explained s.policy.undefinedFails) (s.skipScenarios f ps) := by
  induction ps with
  | nil => exact secures_pure fun _ _ _ => List.forall_mem_nil _
  | cons p ps ih =>
    have hr : (notRun f p.1 p.2).Explained s.policy.undefinedFails := explained_notRun f p.1 p.2
    refine secures_bind (reasoned_emit hr) fun _ => secures_bind_value ih fun rs hrs => ?_
    exact secures_pure fun _ _ _ => List.forall_mem_cons.2 ⟨hr, hrs⟩

theorem reasoned_runFeature : s.Reasoned (·.Explained s.policy.undefinedFails) (s.runFeature f) := by
  have hunseen : (Scope.feature f none).Explained s.policy.undefinedFails := Scope.all_of_none rfl
  rw [runFeature_eq]
  refine secures_bind_value (reasoned_runHooks hunseen) fun before hbefore => ?_
  refine secures_bind_value (q := fun rs => ∀ r ∈ rs, r.Explained s.policy.undefinedFails) ?_
    fun scenarios hscenarios => ?_
  · split
    · exact reasoned_runScenarios
    · exact reasoned_skipScenarios
  have hshown : (Scope.feature f (some (featureResult f scenarios before))).Explained
      s.policy.undefinedFails := fun _ hk => Option.some.inj hk ▸ ⟨hscenarios, hbefore⟩
  refine secures_bind_value (reasoned_runHooks hshown) fun after hafter => ?_
  have hresult : (featureResult f scenarios (before ++ after)).Explained s.policy.undefinedFails :=
    ⟨hscenarios, List.forall_mem_append.2 ⟨hbefore, hafter⟩⟩
  exact secures_bind (reasoned_emit hresult) fun _ => secures_pure fun _ _ _ => hresult

theorem reasoned_skipFeature : s.Reasoned (·.Explained s.policy.undefinedFails) (s.skipFeature f) := by
  refine secures_bind_value reasoned_skipScenarios fun scenarios hscenarios => ?_
  have hresult : FeatureResult.Explained s.policy.undefinedFails
      ⟨f.name, .skipped, scenarios, [], f.path⟩ := ⟨hscenarios, List.forall_mem_nil _⟩
  exact secures_bind (reasoned_emit hresult) fun _ => secures_pure fun _ _ _ => hresult

theorem reasoned_runFeatures {ready : Bool} {fs : List Feature} :
    s.Reasoned (fun _ => True) (s.runFeatures ready fs) := by
  induction fs with
  | nil => exact minds_pure _
  | cons f fs ih =>
    rw [runFeatures_cons]
    refine minds_bind ?_ fun skipped => ?_
    · split
      · exact reasoned_perform (r := .aborted) trivial
      · exact minds_pure _
    refine secures_bind_value (q := (·.Explained s.policy.undefinedFails)) ?_ fun r hr => ?_
    · split
      · exact reasoned_skipFeature
      · exact reasoned_runFeature
    refine minds_bind (secures_modify fun l hl _ => ⟨?_, trivial⟩) fun _ => ih
    exact List.forall_mem_append.2 ⟨hl, List.forall_mem_singleton.2 hr⟩

theorem reasoned_result {hooks : List HookResult} (hhooks : ∀ r ∈ hooks, r.Sound) :
    s.Reasoned (·.Explained s.policy.undefinedFails) (s.result hooks) := by
  refine secures_bind secures_get fun l => ?_
  refine secures_of_known (p := s.Explains l) (fun _ hl h => h.1 ▸ hl) fun hl => ?_
  refine (secures_bind (P := fun _ => True) (reasoned_perform (r := .aborted) trivial) fun _ => ?_).imp
    (fun _ _ => trivial) fun _ _ _ => id
  exact secures_pure fun _ _ _ => ⟨hl, hhooks⟩

theorem reasoned_recover {features : List Feature} {r : Except Fault Unit} :
    s.Reasoned (fun _ => True) (s.recover features r) := by
  cases r with
  | ok _ => exact minds_pure _
  | error e =>
    rw [recover]
    split
    · refine Secures.imp (secures_observe (Q := fun _ _ => True) ?_) (fun _ => id) fun _ _ _ _ => trivial
      refine minds_bind (reasoned_perform (r := .abort _) trivial) fun _ => ?_
      refine secures_bind secures_get fun l => ?_
      refine Minds.imp (minds_bind reasoned_log fun _ => ?_)
      rw [skipFeatures_eq]
      exact reasoned_runFeatures
    · exact minds_pure _

theorem reasoned_finish {r : SuiteResult} (hr : r.Explained s.policy.undefinedFails) :
    s.Reasoned (·.Explained s.policy.undefinedFails) (s.finish r) := by
  have hflush : s.Reasoned (fun _ => True) s.flush := by
    unfold flush
    split
    · exact minds_bind (reasoned_perform (r := .flush) trivial) fun _ => reasoned_proceed
    · exact minds_pure _
  refine secures_bind (reasoned_emit hr) fun _ => secures_bind hflush fun _ => ?_
  exact secures_bind reasoned_log fun _ => secures_pure fun _ _ _ => hr

theorem reasoned_conduct {features : List Feature} :
    s.Reasoned (·.Explained s.policy.undefinedFails) (s.conduct features) := by
  have hunseen : (Scope.suite features none).Explained s.policy.undefinedFails := Scope.all_of_none rfl
  refine secures_bind reasoned_log fun _ => ?_
  refine secures_bind_value (reasoned_runHooks hunseen) fun before hbefore => ?_
  refine secures_bind (Q := fun _ _ => True)
    (Secures.imp (secures_observe reasoned_runFeatures) (fun _ => id) fun _ _ _ _ => trivial) fun r => ?_
  refine secures_bind reasoned_recover fun outcome => ?_
  refine secures_bind_value (reasoned_result hbefore) fun soFar hsoFar => ?_
  have hshown : (Scope.suite features (some soFar)).Explained s.policy.undefinedFails :=
    fun _ hk => Option.some.inj hk ▸ hsoFar
  refine secures_bind_value (reasoned_runHooks hshown) fun after hafter => ?_
  refine secures_bind (reasoned_settle (Q := fun _ => True) fun _ _ => trivial) fun _ => ?_
  exact secures_bind_value (reasoned_result (List.forall_mem_append.2 ⟨hbefore, hafter⟩)) fun _ =>
    reasoned_finish

/-- All that a run of a suite asks for says why it failed, and so does its result. -/
theorem asks_run_explained (s : Suite) (features : List Feature) :
    Program.Asks s.explaining.asks (fun _ => False) s.explaining.answers
      (fun o => ∀ r, o = .ok r → r.Explained s.policy.undefinedFails) (s.run features) := by
  have hrun : s.Reasoned (·.Explained s.policy.undefinedFails) (s.runAll features) := by
    rw [runAll_eq]
    exact secures_bind (reasoned_perform (r := .resetAbort) trivial) fun _ => reasoned_conduct
  exact (hrun [] (List.forall_mem_nil _) trivial).bind fun _ hp => .done hp.2

/-- Whatever is handed over or shown in a run of a scenario, and its result, says why it failed: a step
that failed brings an error unless it is undefined and that counts as a failure, a hook that failed always
does, and a scenario that failed does unless one of its steps is of that kind and nothing else brought an
error. What passed or was skipped brings none. All this is so in a run of a suite as well. -/
theorem explained_of_run (t : Trace) :
    (∀ (x : Executor) (scenario : Scenario) (feature : Option Feature) (id : Option String)
        (o : Except Fault ScenarioResult), (x.run scenario feature id).Runs t o →
      (∀ m ∈ t, m.request.Explained x.policy.undefinedFails) ∧
        ∀ r, o = .ok r → r.Explained x.policy.undefinedFails) ∧
    ∀ (s : Suite) (features : List Feature) (o : Except Fault SuiteResult), (s.run features).Shows t o →
        (∀ m ∈ t, m.request.Explained s.policy.undefinedFails) ∧
          ∀ r, o = .ok r → r.Explained s.policy.undefinedFails := by
  constructor
  · intro x scenario feature id o h
    exact (x.asks_run_explained scenario feature id).value_of_runs (T := x.explaining) h
      fun _ _ => trivial
  · exact fun s features o h => (s.asks_run_explained features).value_of_shows h

theorem explained_of_run_sample :
    let x := { Sample.executor [] with policy := ⟨.skipRest, .goOn, true, false⟩ }
    let s := { Sample.suite [] 2 false with policy := x.policy }
    let w := Sample.surroundings (fun _ => none) fun _ => none
    (∃ r, w.resultOf (x.run Sample.scenario none none) = .ok r ∧ r.status = .failed ∧ r.error = none ∧
      ∃ k ∈ r.steps, k.undefined = true ∧ k.status = .failed ∧ k.error = none) ∧
    ∀ m ∈ w.showing (s.run [Sample.doubled "bookings"]) ⟨0, false⟩, m.request.Explained true := by
  intro x s w
  obtain ⟨_, _, hshows⟩ := w.exists_shows_showing (p := s.run [Sample.doubled "bookings"])
    (s := ⟨0, false⟩) (by decide +kernel)
  refine ⟨?_, ((explained_of_run _).2 s _ _ hshows).1⟩
  have hc : compose x.root = _ := compose_leaf ..
  have hany : (w.resultOf (x.run Sample.scenario none none)).toOption.any
      (fun r => r.status == .failed && r.error.isNone) = true := by
    unfold Surroundings.resultOf Executor.run Executor.runCase Executor.setUp
    rw [hc]
    decide +kernel
  obtain ⟨r, hr, hfailed⟩ := exists_ok_of_any hany
  simp only [Bool.and_eq_true, beq_iff_eq, Option.isNone_iff_eq_none] at hfailed
  have hexplained := ((explained_of_run _).1 x _ _ _ _ (w.runs_traceOf _)).2 r hr
  obtain ⟨k, hk, hu⟩ := (hexplained.unsaid hfailed.2).1 hfailed.1
  exact ⟨r, hr, hfailed.1, hfailed.2, k, hk, hu.1, (hexplained.steps k hk).unsaid.2 hu⟩

end Suite
end Rehearsal
