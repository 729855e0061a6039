import Rehearsal.Proofs.Scenario.Calls
import Rehearsal.Proofs.Suite.Hooks
import Rehearsal.Proofs.Suite.Surroundings

/-! What the run of a suite gives to the callables that it calls. The hooks of the suite and of its
features receive their scopes, and the scenarios call as in a run of their own. So all that was accepted
when it was registered can be called in the way it is. -/

namespace Rehearsal
set_option autoImplicit false

namespace Suite
variable {s : Suite} {t : Trace} {scope : Scope} {f : Feature} {features : List Feature}

theorem hookActs_governs :
    HookActs s (fun _ t _ _ => s.registry.Governs t) (fun _ => True) (fun _ => False) where
  refl _ := Registry.governs_of_calls_nil rfl
  trans := Registry.Governs.append
  aside ht _ := Registry.governs_of_calls_nil (Trace.calls_of_offstage ht)
  call _ _ _ hnone := hnone.elim
  emit _ _ _ _ _ _ h := Registry.governs_of_calls_nil (goes_emit h).2.calls

theorem sequential_governs : Sequential
    fun (_ : List FeatureResult) t (_ : Option Fault) (_ : List FeatureResult) => s.registry.Governs t :=
  hookActs_governs.toSequential

theorem governs_runHook {h : Hook} (hm : h ∈ s.registry.registered) (hb : h.phase.instanceBound = false) :
    Carries (fun _ t _ _ => s.registry.Governs t) (s.runHook scope h) := by
  refine carries_bind sequential_governs ?_ fun r => ?_
  · intro l t o l' hgo
    obtain ⟨_, f, b, u, rfl, hu, _⟩ := goes_invoke hgo
    exact Registry.governs_call (.offContext scope hm hb) hu
  · refine carries_bind sequential_governs (hookActs_governs.emit _ trivial) fun _ => ?_
    split
    · exact carries_bind sequential_governs hookActs_governs.log fun _ =>
        carries_pure sequential_governs _
    · exact carries_bind sequential_governs (carries_pure sequential_governs _) fun _ =>
        carries_pure sequential_governs _

theorem governs_runHookList {hs : List Hook}
    (hhs : ∀ h ∈ hs, h ∈ s.registry.registered ∧ h.phase.instanceBound = false) :
    Carries (fun _ t _ _ => s.registry.Governs t) (s.runHookList scope hs) := by
  induction hs with
  | nil => exact carries_pure sequential_governs _
  | cons h hs ih =>
    obtain ⟨hh, hrest⟩ := List.forall_mem_cons.1 hhs
    refine carries_bind sequential_governs (governs_runHook hh.1 hh.2) fun r => ?_
    split
    · exact carries_pure sequential_governs _
    · exact carries_bind sequential_governs (ih hrest) fun _ => carries_pure sequential_governs _

/-- The hooks around a suite or a feature are called with their scope alone. -/
theorem governs_runHooks {phase : HookPhase} (hb : phase.instanceBound = false) :
    Carries (fun _ t _ _ => s.registry.Governs t) (s.runHooks phase scope) := by
  refine carries_settle_bind (fun _ _ l => hookActs_governs.refl l) fun hooks hl => ?_
  refine governs_runHookList fun h hm => ?_
  obtain ⟨hreg, rfl⟩ := Registry.mem_registered_of_lookup hl hm
  exact ⟨hreg, hb⟩

theorem governs_scenarioJob {c : Scenario} {index : Nat} {o : Except Fault ScenarioResult}
    (h : (s.scenarioJob f c index).Runs t o) : s.registry.Governs t := by
  obtain ⟨x, b, u, rfl, hu⟩ := runs_scenarioJob h
  rw [Registry.Governs, Trace.calls_cons_offstage rfl]
  rcases hu with ⟨_, hh, _⟩ | ⟨_, hrun⟩
  · exact Registry.governs_of_calls_nil hh.calls
  · exact Executor.governs_run hrun

theorem governs_runScenarios : Carries (fun _ t _ _ => s.registry.Governs t) (s.runScenarios f) := by
  rw [runScenarios]
  split
  · intro l t o l' h k hk
    obtain ⟨_, _, ends, hover, _⟩ := goes_runInPool h
    obtain ⟨m, hm, hcall⟩ := List.mem_filterMap.1 hk
    obtain ⟨j, hj, u, o, hrun, hmu⟩ := hover.exists_job hm
    obtain ⟨p, _, rfl⟩ := List.mem_map.1 hj
    exact governs_scenarioJob hrun k (List.mem_filterMap.2 ⟨m, hmu, hcall⟩)
  · exact hookActs_governs.runInOrder fun p _ _ _ _ _ h => governs_scenarioJob (goes_job_iff.1 h).2

theorem governs_runFeature : Carries (fun _ t _ _ => s.registry.Governs t) (s.runFeature f) := by
  rw [runFeature_eq]
  refine carries_bind sequential_governs (governs_runHooks rfl) fun hooks => ?_
  refine carries_bind sequential_governs ?_ fun scenarios => ?_
  · split
    · exact governs_runScenarios
    · exact hookActs_governs.skipScenarios fun _ => trivial
  · refine carries_bind sequential_governs (governs_runHooks rfl) fun after => ?_
    exact carries_bind sequential_governs (hookActs_governs.emit _ trivial) fun _ =>
      carries_pure sequential_governs _

theorem governs_runFeatures {ready : Bool} :
    Carries (fun _ t _ _ => s.registry.Governs t) (s.runFeatures ready features) := by
  induction features with
  | nil => exact carries_pure sequential_governs _
  | cons f fs ih =>
    rw [runFeatures_cons]
    refine carries_bind sequential_governs ?_ fun skipped => ?_
    · split
      · intro l t o l' h
        obtain ⟨_, x, b, _, rfl⟩ := goes_perform_iff.1 h
        exact Registry.governs_of_calls_nil rfl
      · exact carries_pure sequential_governs _
    · refine carries_bind sequential_governs ?_ fun r => ?_
      · split
        · exact hookActs_governs.skipFeature (fun _ => trivial) fun _ => trivial
        · exact governs_runFeature
      · intro l t o l' h
        exact ih (goes_modify_bind_iff.1 h)

theorem governs_close {hooks : List HookResult} {outcome : Except Fault Unit} :
    Carries (fun _ t _ _ => s.registry.Governs t) (s.close features hooks outcome) := by
  have hresult : ∀ hooks, Carries (fun _ t _ _ => s.registry.Governs t) (s.result hooks) := by
    intro hooks l t o l' h
    obtain ⟨_, x, b, rfl, _⟩ := goes_result_iff.1 h
    exact Registry.governs_of_calls_nil rfl
  refine carries_bind sequential_governs (hresult _) fun _ => ?_
  refine carries_bind sequential_governs (governs_runHooks rfl) fun _ => ?_
  refine carries_settle_bind (fun _ _ l => hookActs_governs.refl l) fun _ _ => ?_
  refine carries_bind sequential_governs (hresult _) fun _ => ?_
  refine hookActs_governs.finish trivial fun _ _ _ _ h => ?_
  exact Registry.governs_of_calls_nil (goes_flush h).2.2.1

theorem governs_conduct : Carries (fun _ t _ _ => s.registry.Governs t) (s.conduct features) := by
  refine carries_bind sequential_governs hookActs_governs.log fun _ => ?_
  refine carries_bind sequential_governs (governs_runHooks rfl) fun hooks => ?_
  intro l t o l' h
  obtain ⟨u, v, r, l₁, rfl, hloop, hrest⟩ := goes_observe_bind_iff.1 h
  refine (governs_runFeatures hloop).append ?_
  refine carries_bind sequential_governs (fun _ _ _ _ h => ?_) (fun _ => governs_close) hrest
  obtain ⟨_, _, ⟨rfl, _⟩ | ⟨_, _, _, hsalvage⟩⟩ := goes_recover h
  · exact Registry.governs_of_calls_nil rfl
  · exact hookActs_governs.salvage (fun l _ => hookActs_governs.refl l) (fun _ => trivial)
      (fun _ => trivial) hsalvage

/-- Whatever comes of the run of a suite, it calls hooks and definitions of its registry in their ways and
nothing else. -/
theorem governs_run {o : Except Fault SuiteResult} (h : (s.run features).Shows t o) :
    s.registry.Governs t := by
  obtain ⟨l', h⟩ := shows_run_iff.1 h
  rw [runAll_eq] at h
  obtain ⟨⟨⟩, b, u, rfl, hrest⟩ := goes_perform_bind_iff.1 h
  have hu : s.registry.Governs u := governs_conduct hrest
  exact hu

end Suite
end Rehearsal
