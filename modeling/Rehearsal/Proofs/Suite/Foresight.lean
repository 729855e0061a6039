import Rehearsal.Proofs.Scenario.Dispatch
import Rehearsal.Proofs.Scenario.Foresight
import Rehearsal.Proofs.Suite.Closing
import Rehearsal.Proofs.Suite.Course
import Rehearsal.Proofs.Suite.Surroundings

/-! What the hooks after a feature and after a suite are shown, beside those after a scenario. Neither a
feature nor a suite is overruled, so that where all of these hooks pass the result they were shown is the one
that it comes to, but for themselves. -/

namespace Rehearsal
set_option autoImplicit false

/-- The result of a feature that a call brings with it. -/
def Call.featureShown : Call → Option FeatureResult
  | ⟨_, [.scope (.feature _ shown)]⟩ => shown
  | _ => none

/-- The result of a suite that a call brings with it. -/
def Call.suiteShown : Call → Option SuiteResult
  | ⟨_, [.scope (.suite _ shown)]⟩ => shown
  | _ => none

theorem featureShown_of_args {k : Call} {f : Feature} {shown : Option FeatureResult}
    (h : k.args = [.scope (.feature f shown)]) : k.featureShown = shown := by
  cases k
  cases h
  rfl

theorem suiteShown_of_args {k : Call} {fs : List Feature} {shown : Option SuiteResult}
    (h : k.args = [.scope (.suite fs shown)]) : k.suiteShown = shown := by
  cases k
  cases h
  rfl

theorem featureShown_of_onContext {k : Call} (h : k.onContext = true) : k.featureShown = none := by
  unfold Call.onContext at h
  split at h
  · rfl
  · cases h

theorem closes_of_suiteShown {k : Call} {shown : SuiteResult} (h : k.suiteShown = some shown) :
    k.closes = true := by
  unfold Call.suiteShown at h
  split at h
  · cases h
    rfl
  · cases h

namespace Suite
variable {s : Suite} {l l' : List FeatureResult} {t : Trace} {features : List Feature} {f : Feature}

/-- Steps and hooks of scenarios are called on contexts. -/
theorem onContext_of_scenarios {ready : Bool} {o : Except Fault (List ScenarioResult)}
    (h : Goes (if ready then s.runScenarios f else s.skipScenarios f f.numbered) l t o l') :
    ∀ k ∈ t.calls, k.onContext = true := by
  have A : HookActs s _ _ _ := hookActs_calls fun k => k.onContext = true
  have hjob : ∀ {p : Scenario × Nat} {t : Trace} {o : Except Fault ScenarioResult},
      (s.scenarioJob f p.1 p.2).Runs t o → ∀ k ∈ t.calls, k.onContext = true := by
    intro p t o h k hk
    obtain ⟨x, b, u, rfl, hu⟩ := runs_scenarioJob h
    rw [Trace.calls_cons_offstage rfl] at hk
    rcases hu with ⟨_, hh, _⟩ | ⟨_, hrun⟩
    · rw [hh.calls] at hk
      cases hk
    · exact Executor.onContext_of_run hrun hk
  split at h
  · rw [runScenarios] at h
    split at h
    · obtain ⟨_, _, ends, hover, _⟩ := goes_runInPool h
      intro k hk
      obtain ⟨m, hm, hcall⟩ := List.mem_filterMap.1 hk
      obtain ⟨j, hj, u, o, hrun, hmem⟩ := hover.exists_job hm
      obtain ⟨p, _, rfl⟩ := List.mem_map.1 hj
      exact hjob hrun k (List.mem_filterMap.2 ⟨m, hmem, hcall⟩)
    · exact A.runInOrder (fun p _ _ _ _ _ hgo => hjob (goes_job_iff.1 hgo).2) h
  · exact A.skipScenarios (fun _ => trivial) h

theorem args_of_runHookList {scope : Scope} {hs : List Hook} {o : Except Fault (List HookResult)}
    (h : Goes (s.runHookList scope hs) l t o l') : ∀ k ∈ t.calls, k.args = [.scope scope] :=
  (hookActs_calls fun k => k.args = [.scope scope]).runHookList (fun _ => rfl)
    (fun _ _ _ _ => trivial) h

/-- Hooks that passed do not make the result of what they come after any worse. -/
theorem worst_of_passed {ss : List Status} {hooks after : List HookResult} {phase : HookPhase}
    (hphase : ∀ r ∈ after, r.phase = phase) (hall : HookResult.allPassed phase (hooks ++ after)) :
    Status.worst .passed (ss ++ (hooks ++ after).map (·.status)) =
      Status.worst .passed (ss ++ hooks.map (·.status)) := by
  rw [List.map_append, ← List.append_assoc]
  refine Status.worst_eq_of_mem (fun k hk => ?_) fun k hk => .inl (List.mem_append_left _ hk)
  refine (List.mem_append.1 hk).imp_right fun hk => ?_
  obtain ⟨r, hr, rfl⟩ := List.mem_map.1 hk
  exact hall r (List.mem_append_right _ hr) (hphase r hr)

/-- The result of a feature, compared with one that was shown before. -/
theorem foretold_of_runFeature {r : FeatureResult} (h : Goes (s.runFeature f) l t (.ok r) l')
    (hall : HookResult.allPassed .afterFeature r.hooks) {k : Call} (hk : k ∈ t.calls)
    {shown : FeatureResult} (hshown : k.featureShown = some shown) :
    r.status = shown.status ∧ r.scenarios = shown.scenarios ∧ shown.hooks <+: r.hooks := by
  obtain ⟨hooks, rs, after, l₁, l₂, l₃, t₁, t₂, t₃, t₄, rfl, rfl, hbefore, hscenarios, hafter,
    hemit⟩ := parts_of_runFeature h
  rcases goes_settle_bind_iff.1 hbefore with ⟨hs, _, hbefore⟩ | ⟨_, _, _, he, _⟩
  swap
  · cases he
  rcases goes_settle_bind_iff.1 hafter with ⟨hs', hl, hafter⟩ | ⟨_, _, _, he, _⟩
  swap
  · cases he
  simp only [Trace.calls_append, List.mem_append, (goes_emit hemit).2.calls, List.not_mem_nil,
    or_false] at hk
  rcases hk with hk | hk | hk
  · cases hshown.symm.trans (featureShown_of_args (args_of_runHookList hbefore k hk))
  · cases hshown.symm.trans (featureShown_of_onContext (onContext_of_scenarios hscenarios k hk))
  · cases hshown.symm.trans (featureShown_of_args (args_of_runHookList hafter k hk))
    have hphase := phase_of_runHookList (fun h hm => Registry.phase_of_mem_lookup hl hm) hafter
    exact ⟨worst_of_passed hphase hall, rfl, List.prefix_append _ _⟩

/-- The result of a suite, compared with one that was shown before. -/
theorem foretold_of_runAll {r : SuiteResult} (h : Goes (s.runAll features) [] t (.ok r) l')
    (hall : HookResult.allPassed .afterSuite r.hooks) {k : Call} (hk : k ∈ t.calls)
    {shown : SuiteResult} (hshown : k.suiteShown = some shown) :
    r.status = shown.status ∧ r.features = shown.features ∧ shown.hooks <+: r.hooks := by
  obtain ⟨b, t₀, u, o₀, rfl, hgreet, hrest⟩ := goes_runAll_announced h
  cases o₀ with
  | error e => cases hrest.2
  | ok _ =>
    obtain ⟨t₁, _, o₁, rfl, hbefore, hrest⟩ := hrest
    cases o₁ with
    | error e => cases hrest.2
    | ok hooks =>
      obtain ⟨t₂, t₃, t₄, t₅, x, b', o₂, o₃, l₂, l₃, o₄, rfl, hloop, hrecover, hafter, hend⟩ := hrest
      cases o₄ with
      | error e => cases hend.2
      | ok after =>
        rcases hend with ⟨_, _, _, he⟩ | ⟨_, y, b'', t₆, rfl, hfinish⟩
        · cases he
        obtain ⟨rfl, hlast, _⟩ := goes_finish hfinish
        have hnot : ∀ {v : Trace}, v.filterMap Moment.closing? = [] → k ∉ v.calls :=
          fun hv hm => nomatch (Trace.closes_eq_false hv hm).symm.trans (closes_of_suiteShown hshown)
        have h₂ := hnot (suiteActs_unclosing.runFeatures (fun _ => id) hloop)
        have h₃ := hnot (suiteActs_unclosing.recover hrecover)
        have hreset : ∀ v : Trace, Trace.calls (⟨.resetAbort, (), b⟩ :: v) = v.calls := fun _ => rfl
        have hpoll : ∀ (x b : Bool) (v : Trace), Trace.calls (⟨.aborted, x, b⟩ :: v) = v.calls :=
          fun _ _ _ => rfl
        simp only [hreset, hpoll, Trace.calls_append, Trace.calls_of_offstage (goes_log hgreet).2.1,
          hlast, List.mem_append, List.not_mem_nil, false_or, or_false, h₂, h₃] at hk
        rcases hk with hk | hk
        · cases hshown.symm.trans (suiteShown_of_args (args_of_runHookList hbefore k hk))
        · cases hshown.symm.trans (suiteShown_of_args (args_of_runHookList hafter k hk))
          have hphase := phase_of_runHookList phase_of_mem_hooksOf hafter
          exact ⟨worst_of_passed hphase hall, rfl, List.prefix_append _ _⟩

/-- Where the hooks after a scenario all pass, the result that they were shown is the one that the
scenario comes to, but for the hooks themselves, unless that is overruled: then they were shown a status
that it does not come to. Features and suites come to what their hooks were shown in any case. -/
theorem foretold_of_shown (x : Executor) (s : Suite) (t : Trace) :
    (∀ (scenario : Scenario) (feature : Option Feature) (id : Option String) (r : ScenarioResult),
      (x.run scenario feature id).Runs t (.ok r) → HookResult.allPassed .afterScenario r.hooks →
      ∀ k ∈ t.calls, ∀ shown, k.scenarioShown = some shown → shown.Foretold r) ∧
    (∀ (f : Feature) (l l' : List FeatureResult) (r : FeatureResult),
      Goes (s.runFeature f) l t (.ok r) l' → HookResult.allPassed .afterFeature r.hooks →
      ∀ k ∈ t.calls, ∀ shown, k.featureShown = some shown →
        r.status = shown.status ∧ r.scenarios = shown.scenarios ∧ shown.hooks <+: r.hooks) ∧
    (∀ (features : List Feature) (r : SuiteResult),
      (s.run features).Shows t (.ok r) → HookResult.allPassed .afterSuite r.hooks →
      ∀ k ∈ t.calls, ∀ shown, k.suiteShown = some shown →
        r.status = shown.status ∧ r.features = shown.features ∧ shown.hooks <+: r.hooks) := by
  refine ⟨fun _ _ _ _ h hall _ hk _ hshown => Executor.foretold_of_run h hall hk hshown,
    fun _ _ _ _ h hall _ hk _ hshown => foretold_of_runFeature h hall hk hshown, ?_⟩
  intro features r h hall k hk shown hshown
  obtain ⟨l', hrun⟩ := shows_run_iff.1 h
  exact foretold_of_runAll hrun hall hk hshown

/-- The desk cannot be set up. The hook after the scenario is shown that the scenario was skipped, though
it has failed; those after the feature and after the suite are shown that these failed, as they have. -/
theorem foretold_of_shown_sample :
    let hooks := [Sample.hook .afterScenario 1 "save", Sample.hook .afterFeature 2 "lock",
      Sample.hook .afterSuite 3 "close"]
    let s := { Sample.suite hooks 1 false with root := Sample.hotel }
    let w : Surroundings := ⟨fun _ => none, fun _ => none, fun _ => false, fun f =>
      if f.identity = "Desk" then .error (.ofKind "ValueError" "no key") else .ok ⟨.null, []⟩⟩
    let f := Sample.feature "bookings"
    let t₁ := w.traceOf (s.executor.run Sample.scenario (some f) none)
    let t₂ := w.showing ((s.runFeature f).run.run []) ⟨0, false⟩
    let t₃ := w.showing (s.run [f]) ⟨0, false⟩
    ((t₁.calls.filterMap Call.scenarioShown).map (·.status) = [.skipped] ∧
      ∃ r, w.resultOf (s.executor.run Sample.scenario (some f) none) = .ok r ∧
        ∀ k ∈ t₁.calls, ∀ shown, k.scenarioShown = some shown →
          r.error = shown.error ∧ r.status ≠ shown.status) ∧
    ((t₂.calls.filterMap Call.featureShown).map (·.status) = [.failed] ∧
      ∃ r l, w.comesTo ((s.runFeature f).run.run []) ⟨0, false⟩ = some (.ok r, l) ∧
        ∀ k ∈ t₂.calls, ∀ shown, k.featureShown = some shown → r.status = shown.status) ∧
    (t₃.calls.filterMap Call.suiteShown).map (·.status) = [.failed] ∧
      ∃ r, w.comesTo (s.run [f]) ⟨0, false⟩ = some (.ok r) ∧
        ∀ k ∈ t₃.calls, ∀ shown, k.suiteShown = some shown → r.status = shown.status := by
  intro hooks s w f t₁ t₂ t₃
  obtain ⟨hscenario, _, _⟩ := foretold_of_shown s.executor s t₁
  obtain ⟨_, hfeature, _⟩ := foretold_of_shown s.executor s t₂
  obtain ⟨_, _, hsuite⟩ := foretold_of_shown s.executor s t₃
  refine ⟨⟨by decide +kernel, ?_⟩, ⟨by decide +kernel, ?_⟩, by decide +kernel, ?_⟩
  · have hrun := w.runs_traceOf (s.executor.run Sample.scenario (some f) none)
    obtain ⟨r, hr, hp⟩ := exists_ok_of_any
      (x := w.resultOf (s.executor.run Sample.scenario (some f) none))
      (p := fun r => r.overruled && decide (HookResult.allPassed .afterScenario r.hooks))
      (by decide +kernel)
    rw [Bool.and_eq_true, decide_eq_true_eq] at hp
    rw [hr] at hrun
    refine ⟨r, hr, fun k hk shown hshown => ?_⟩
    have hforetold := hscenario _ _ _ _ hrun hp.2 k hk shown hshown
    exact ⟨hforetold.error, fun he => nomatch hp.1.symm.trans (hforetold.status.1 he)⟩
  · have hends : (w.comesTo ((s.runFeature f).run.run []) ⟨0, false⟩).any (fun p => p.1.toOption.any
        fun r => decide (HookResult.allPassed .afterFeature r.hooks)) = true := by decide +kernel
    obtain ⟨⟨o, l⟩, ho, hany⟩ := (Option.any_eq_true ..).1 hends
    obtain ⟨r, rfl, hp⟩ := exists_ok_of_any hany
    rw [decide_eq_true_eq] at hp
    exact ⟨r, l, ho, fun k hk shown hshown =>
      (hfeature f [] _ r (Surroundings.shows_showing ho) hp k hk shown hshown).1⟩
  · have hends : (w.comesTo (s.run [f]) ⟨0, false⟩).any (fun o => o.toOption.any
        fun r => decide (HookResult.allPassed .afterSuite r.hooks)) = true := by decide +kernel
    obtain ⟨o, ho, hany⟩ := (Option.any_eq_true ..).1 hends
    obtain ⟨r, rfl, hp⟩ := exists_ok_of_any hany
    rw [decide_eq_true_eq] at hp
    exact ⟨r, ho, fun k hk shown hshown =>
      (hsuite [f] r (Surroundings.shows_showing ho) hp k hk shown hshown).1⟩

end Suite
end Rehearsal
