import Rehearsal.Proofs.Scenario.Unseen
import Rehearsal.Proofs.Suite.Completeness
import Rehearsal.Proofs.Suite.Hooks

/-! The course of a suite whose scenarios run in order and whose sink takes every record. It is
bracketed by the hooks of the suite, and each of its features, if it is started, by those of the
feature. What a scenario does in its turn is left open. -/

namespace Rehearsal

/-- Steps and hooks of a scenario are called on a context, hooks of suites and features are not. -/
def Call.onContext : Call → Bool
  | ⟨_, .value _ :: _⟩ => true
  | _ => false

def Moment.offContext? (m : Moment Request.Answer Bool) : Option Call :=
  m.call?.filter fun k => !k.onContext

theorem Executor.blind_offContext : Blind Moment.offContext? := blind_callIf fun k => !k.onContext

theorem Executor.onContext_of_run {x : Executor} {t : Trace} {scenario : Scenario}
    {feature : Option Feature} {id : Option String} {o : Except Fault ScenarioResult}
    (h : (x.run scenario feature id).Runs t o) {k : Call} (hk : k ∈ t.calls) :
    k.onContext = true := by
  have hnil : t.filterMap Moment.offContext? = [] :=
    blind_offContext.run (fun _ _ _ _ _ => rfl) (fun _ _ _ _ => rfl) h
  have hfilter : t.calls.filter (fun k => !k.onContext) = [] := by
    rw [Trace.calls, List.filter_filterMap]
    exact hnil
  simpa using List.filter_eq_nil_iff.1 hfilter k hk

namespace Suite
set_option autoImplicit false
variable {s : Suite} {l l' : List FeatureResult} {t : Trace} {features : List Feature} {f : Feature}
  {Q : Feature → Scenario × Nat → Trace → ScenarioResult → Prop} {requested : Bool}

def skippedScenario (f : Feature) (p : Scenario × Nat) : ScenarioResult := notRun f p.1 p.2

def skippedFeature (f : Feature) : List ScenarioResult := f.numbered.map (skippedScenario f)

/-- The course of a feature that is started, around its scenarios. -/
def FeatureCourse (s : Suite) (Q : Feature → Scenario × Nat → Trace → ScenarioResult → Prop)
    (f : Feature) (t : Trace) (rs : List ScenarioResult) : Prop :=
  ∃ before after, s.registry.lookup .beforeFeature (some f.tags) = .ok before ∧
    s.registry.lookup .afterFeature (some f.tags) = .ok after ∧
    Bracket (fun k h => k = callOf (.feature f none) h) Option.isSome before
      (TurnsIf (· = true) (skippedScenario f) (Q f) f.numbered)
      (fun shown k h => k = callOf (.feature f (some shown)) h) after false t rs

/-- The course of a suite, which comes to a list of results for each of its features. A feature or a
scenario is skipped if and only if an abort is requested by then or a hook before it failed. -/
def Course (s : Suite) (Q : Feature → Scenario × Nat → Trace → ScenarioResult → Prop)
    (features : List Feature) (requested : Bool) (t : Trace) (rs : List (List ScenarioResult)) :
    Prop :=
  Bracket (fun k h => k = callOf (.suite features none) h) Option.isSome
    (s.registry.hooksOf .beforeSuite)
    (TurnsIf (· = true) skippedFeature (s.FeatureCourse Q) features)
    (fun shown k h => k = callOf (.suite features (some shown)) h) (s.registry.hooksOf .afterSuite)
    requested t rs

def Unbegun (_ : List FeatureResult) (t : Trace) (_ : Option Fault) (_ : List FeatureResult) : Prop :=
  t.begins = false

theorem hookActs_unbegun : HookActs s Unbegun (fun r => r.begins = false) fun _ => True where
  refl _ := rfl
  trans {_ _ _ t u _} ht hu := by
    have ht : Trace.begins t = false := ht
    have hu : Trace.begins u = false := hu
    rw [Unbegun, Trace.begins_append, ht, hu, Bool.or_false]
  aside ht _ := Trace.begins_of_offstage ht
  call callable scope place _ := by
    intro l t o l' h
    obtain ⟨_, f, b, u, rfl, hu, _⟩ := goes_invoke h
    have hu : Trace.begins u = false := Trace.begins_of_offstage hu
    exact hu
  emit r hr := by
    intro l t o l' h
    exact (goes_emit h).2.begins hr

theorem goes_bind_of_smooth {α β : Type} {x : Action α} {k : α → Action β} {o : Except Fault β}
    (hx : Carries (s.Raised features) x) (ho : s.Orderly features)
    (h : Goes (x >>= k) l t o l') (ht : t.Smooth requested) :
    ∃ u v a l₁, t = u ++ v ∧ Goes x l u (.ok a) l₁ ∧ u.Smooth requested ∧
      Goes (k a) l₁ v o l' ∧ v.Smooth (u.signal requested) := by
  rcases goes_bind_iff.1 h with ⟨u, v, a, l₁, rfl, hu, hv⟩ | ⟨e, rfl, hu⟩
  · obtain ⟨htu, htv⟩ := Trace.smooth_append.1 ht
    exact ⟨u, v, a, l₁, rfl, hu, htu, hv, htv⟩
  · cases none_of_raised (hx hu) ho ht.tame ht.taken

/-- The runs of scenarios of some features go as is said of them, in smooth surroundings. -/
def Stages (s : Suite) (Q : Feature → Scenario × Nat → Trace → ScenarioResult → Prop)
    (features : List Feature) : Prop :=
  ∀ f ∈ features, ∀ p ∈ f.numbered, ∀ (t : Trace) (o : Except Fault ScenarioResult),
    (s.executor.run p.1 (some f) (some (f.idOf p.2 p.1))).Runs t o → t.Smooth false →
      ∃ r, o = .ok r ∧ Q f p t r

theorem unbegun_runHookList {scope : Scope} {hs : List Hook} {o : Except Fault (List HookResult)}
    (h : Goes (s.runHookList scope hs) l t o l') : t.begins = false :=
  hookActs_unbegun.runHookList trivial (fun _ _ _ _ => rfl) h

theorem skipped_skipFeature {r : FeatureResult} (h : Goes (s.skipFeature f) l t (.ok r) l') :
    t.Idle ∧ r.scenarios = skippedFeature f := by
  refine ⟨hookActs_atRest.skipFeature (fun _ => rfl) (fun _ => rfl) h, ?_⟩
  obtain ⟨_, _, _, _, rfl, rfl, hskip, _⟩ := parts_of_skipFeature h
  exact goes_skipScenarios hskip

/-- In a suite that is not ready all features are skipped. -/
theorem skipped_runFeatures {fs : List Feature} (h : Goes (s.runFeatures false fs) l t (.ok ()) l') :
    t.Idle ∧ ∃ added : List FeatureResult, l' = l ++ added ∧
      added.map (·.scenarios) = fs.map skippedFeature := by
  induction fs generalizing l t with
  | nil =>
    obtain ⟨rfl, _, rfl⟩ := goes_pure_iff.1 h
    exact ⟨⟨rfl, rfl⟩, [], (List.append_nil _).symm, rfl⟩
  | cons f fs ih =>
    have B : LoopActs s [f] Still _ _ := loopActs_still
    rw [← skipFeatures_eq, skipFeatures, skipFeatures_eq] at h
    obtain ⟨u, v, r, l₁, rfl, hskip, hk⟩ := goes_bind_ok_iff.1 h
    obtain rfl : l₁ = l := B.skipFeature (fun _ => trivial) (fun _ => trivial) hskip
    rw [goes_modify_bind_iff] at hk
    obtain ⟨hidle, hr⟩ := skipped_skipFeature hskip
    obtain ⟨hrest, added, rfl, hadded⟩ := ih hk
    refine ⟨hidle.append hrest, r :: added, by simp, ?_⟩
    rw [List.map_cons, List.map_cons, hr, hadded]

section Turns
variable (hQ : s.Stages Q features)
include hQ

theorem turn_scenarioJob {p : Scenario × Nat} {o : Except Fault ScenarioResult}
    (hf : f ∈ features) (hp : p ∈ f.numbered) (h : (s.scenarioJob f p.1 p.2).Runs t o)
    (ht : t.Smooth requested) :
    ∃ r, o = .ok r ∧ Turn (· = true) (skippedScenario f) (Q f) p requested t r := by
  obtain ⟨x, b, u, rfl, hu⟩ := runs_scenarioJob h
  obtain ⟨hb, htu⟩ := Trace.smooth_aborted.1 ht
  obtain ⟨rfl, rfl⟩ := hb
  rcases hu with ⟨rfl, hh, hr⟩ | ⟨rfl, hrun⟩
  · cases o with
    | ok r =>
      obtain rfl := hr r rfl
      have hu : Trace.Idle u := ⟨hh.calls, hh.begins rfl⟩
      exact ⟨_, rfl, .skipped rfl hu⟩
    | error e =>
      have hm := mem_handed_of_hands hh
      cases Option.isNone_iff_eq_none.1 (List.all_eq_true.1 htu.taken _ hm)
  · obtain ⟨r, rfl, hr⟩ := hQ f hf p hp u o hrun htu
    exact ⟨r, rfl, .started hr⟩

variable (ho : s.Orderly features)
include ho

theorem inTurn_runInOrder {ps : List (Scenario × Nat)} {o : Except Fault (List ScenarioResult)}
    (hf : f ∈ features) (hps : ∀ p ∈ ps, p ∈ f.numbered) (h : Goes (s.runInOrder f ps) l t o l')
    (ht : t.Smooth requested) :
    ∃ rs, o = .ok rs ∧ InTurn (Turn (· = true) (skippedScenario f) (Q f)) ps requested t rs := by
  induction ps generalizing l t o requested with
  | nil =>
    obtain ⟨rfl, rfl, rfl⟩ := goes_pure_iff.1 h
    exact ⟨[], rfl, .nil requested⟩
  | cons p ps ih =>
    obtain ⟨hp, hrest⟩ := List.forall_mem_cons.1 hps
    have A : SuiteActs s features (s.Raised features) _ _ := suiteActs_raised
    obtain ⟨u, v, r, l₁, rfl, hjob, htu, hk, htv⟩ :=
      goes_bind_of_smooth (A.scenario f hf p hp) ho h ht
    obtain ⟨_, hr, hturn⟩ := turn_scenarioJob hQ hf hp (goes_job_iff.1 hjob).2 htu
    cases hr
    obtain ⟨o', rfl, hgo⟩ := goes_bind_pure_iff.1 hk
    obtain ⟨rs, rfl, hrs⟩ := ih hrest hgo htv
    exact ⟨r :: rs, rfl, .cons hturn hrs⟩

theorem turns_scenarios {ready : Bool} {rs : List ScenarioResult} (hf : f ∈ features)
    (hw : s.workers ≤ 1)
    (h : Goes (if ready then s.runScenarios f else s.skipScenarios f f.numbered) l t (.ok rs) l')
    (ht : t.Smooth requested) :
    TurnsIf (· = true) (skippedScenario f) (Q f) f.numbered ready requested t rs := by
  cases ready with
  | true =>
    change Goes (s.runScenarios f) l t (.ok rs) l' at h
    rw [runScenarios, if_neg (Nat.not_lt.2 hw)] at h
    obtain ⟨_, hrs, hturns⟩ := inTurn_runInOrder hQ ho hf (fun _ => id) h ht
    cases hrs
    exact hturns
  | false => exact ⟨hookActs_atRest.skipScenarios (fun _ => rfl) h, goes_skipScenarios h⟩

theorem course_runFeature {r : FeatureResult} (hf : f ∈ features) (hw : s.workers ≤ 1)
    (h : Goes (s.runFeature f) l t (.ok r) l') (ht : t.Smooth false) :
    s.FeatureCourse Q f t r.scenarios := by
  obtain ⟨before, hbefore⟩ := ho.feature f hf .beforeFeature
  obtain ⟨after, hafter⟩ := ho.feature f hf .afterFeature
  obtain ⟨hooks, rs, closed, l₁, l₂, l₃, t₁, t₂, t₃, t₄, rfl, rfl, h₁, h₂, h₃, h₄⟩ :=
    parts_of_runFeature h
  simp only [Trace.smooth_append] at ht
  obtain ⟨ht₁, ht₂, ht₃, _⟩ := ht
  have h₁ := goes_runHooks_of_lookup hbefore h₁
  have h₃ := goes_runHooks_of_lookup hafter h₃
  have h₄ : t₄.Idle := hookActs_atRest.emit _ rfl h₄
  refine ⟨before, after, hbefore, hafter, ?_⟩
  refine .intro (featureResult f rs hooks) ?_ (unbegun_runHookList h₁)
    (turns_scenarios hQ ho hf hw h₂ ht₂) ?_ ?_
  · exact upToFailure_runHookList (isBefore_of_mem_lookup hbefore) h₁ ht₁.tame
  · rw [Trace.calls_append, h₄.1, List.append_nil]
    exact forall₂_runHookList (isBefore_of_mem_lookup hafter) h₃ ht₃.tame
  · rw [Trace.begins_append, h₄.2, unbegun_runHookList h₃]
    rfl

theorem inTurn_runFeatures {fs : List Feature} {o : Except Fault Unit} (hw : s.workers ≤ 1)
    (hfs : ∀ f ∈ fs, f ∈ features) (h : Goes (s.runFeatures true fs) l t o l')
    (ht : t.Smooth requested) :
    ∃ added : List FeatureResult, o = .ok () ∧ l' = l ++ added ∧
      InTurn (Turn (· = true) skippedFeature (s.FeatureCourse Q)) fs requested t
        (added.map (·.scenarios)) := by
  induction fs generalizing l t requested with
  | nil =>
    obtain ⟨rfl, rfl, rfl⟩ := goes_pure_iff.1 h
    exact ⟨[], rfl, (List.append_nil _).symm, .nil requested⟩
  | cons f fs ih =>
    obtain ⟨hf, hrest⟩ := List.forall_mem_cons.1 hfs
    have A : SuiteActs s features (s.Raised features) _ _ := suiteActs_raised
    have B : LoopActs s features Still _ _ := loopActs_still
    rw [runFeatures_cons] at h
    obtain ⟨x, b, u, rfl, h₁⟩ := goes_perform_bind_iff.1 h
    obtain ⟨⟨rfl, rfl⟩, hu⟩ := Trace.smooth_aborted.1 ht
    obtain ⟨t₂, t₃, r, l₂, rfl, h₂, ht₂, hk₂, ht₃⟩ := goes_bind_of_smooth (A.turn hf) ho h₁ hu
    obtain rfl : l₂ = l := B.turn hf h₂
    rw [goes_modify_bind_iff] at hk₂
    obtain ⟨added, rfl, rfl, hturns⟩ := ih hrest hk₂ ht₃
    rw [← List.cons_append]
    refine ⟨r :: added, rfl, by simp, .cons ?_ hturns⟩
    cases b with
    | true =>
      obtain ⟨hidle, hr⟩ := skipped_skipFeature h₂
      dsimp only
      rw [hr]
      exact .skipped rfl hidle
    | false => exact .started (course_runFeature hQ ho hf hw h₂ ht₂)

theorem turns_runFeatures {ready : Bool} {o : Except Fault Unit} (hw : s.workers ≤ 1)
    (h : Goes (s.runFeatures ready features) [] t o l') (ht : t.Smooth requested) :
    o = .ok () ∧ TurnsIf (· = true) skippedFeature (s.FeatureCourse Q) features ready requested t
      (l'.map (·.scenarios)) := by
  cases ready with
  | true =>
    obtain ⟨added, rfl, rfl, hturns⟩ := inTurn_runFeatures hQ ho hw (fun _ => id) h ht
    exact ⟨rfl, hturns⟩
  | false =>
    have A : SuiteActs s features (s.Raised features) _ _ := suiteActs_raised
    cases o with
    | error e => cases none_of_raised (A.runFeatures (fun _ => id) h) ho ht.tame ht.taken
    | ok _ =>
      obtain ⟨hidle, added, rfl, hadded⟩ := skipped_runFeatures h
      exact ⟨rfl, hidle, hadded⟩

/-- Whatever is said of the runs of its scenarios, the run of a suite takes its course around them. -/
theorem course_runAll {o : Except Fault SuiteResult} (hw : s.workers ≤ 1)
    (h : Goes (s.runAll features) [] t o l') (ht : t.Smooth requested) :
    ∃ l₃ : List FeatureResult, s.Course Q features requested t (l₃.map (·.scenarios)) ∧
      ∀ r, o = .ok r → r.features = l₃ := by
  have A : SuiteActs s features (s.Raised features) (fun _ => True) fun _ => True := suiteActs_raised
  obtain ⟨b, t₀, _, rfl, hoff, t₁, rest, o₁, rfl, h₁, hrest⟩ := goes_runAll_parts h (Trace.logged_of_tame ht.tame)
  have hsplit : ⟨.resetAbort, (), b⟩ :: (t₀ ++ (t₁ ++ rest)) =
      ((⟨.resetAbort, (), b⟩ :: t₀) ++ t₁) ++ rest := by simp
  rw [hsplit] at ht ⊢
  obtain ⟨hstart, hv⟩ := Trace.smooth_append.1 ht
  have ht₁ := (Trace.smooth_append.1 hstart).2
  cases o₁ with
  | error e => cases none_of_raised (A.runHookList trivial (fun _ _ _ _ => trivial) h₁) ho ht₁.tame ht₁.taken
  | ok hooks =>
    obtain ⟨t₂, t₃, t₄, t₅, x, b', o₂, o₃, l₂, l₃, o₄, rfl, hloop, hrecover, h₄, hend⟩ := hrest
    obtain ⟨ht₂, hrest⟩ := Trace.smooth_append.1 hv
    obtain ⟨rfl, hturns⟩ := turns_runFeatures hQ ho hw hloop ht₂
    obtain ⟨_, ho₃, ⟨rfl, rfl, rfl, _⟩ | ⟨_, he, _⟩⟩ := goes_recover hrecover
    swap
    · cases he
    cases ho₃
    have ht₄ : t₄.Smooth _ :=
      (Trace.smooth_append.1 (Trace.smooth_aborted.1 hrest).2).1
    cases o₄ with
    | error e => cases none_of_raised (A.runHookList trivial (fun _ _ _ _ => trivial) h₄) ho ht₄.tame ht₄.taken
    | ok after =>
      rcases hend with ⟨_, he, _⟩ | ⟨_, y, b'', t₆, rfl, hfinish⟩
      · cases he
      have hopen : Trace.Idle (⟨.resetAbort, (), b⟩ :: t₀) := by
        have hidle := Trace.idle_of_offstage hoff
        exact hidle
      have hclose : Trace.Idle (⟨.aborted, y, b''⟩ :: t₆) := by
        have hidle : Trace.Idle t₆ := atRest_finish hfinish
        exact hidle
      refine ⟨l₃, .intro (s.made l₃ hooks x) ?_ ?_ hturns ?_ ?_, ?_⟩
      · rw [Trace.invocations_append, Trace.invocations_eq_nil hopen.1, List.nil_append]
        exact upToFailure_runHookList (fun h hm => by rw [phase_of_mem_hooksOf h hm]; rfl) h₁
          ht₁.tame
      · rw [Trace.begins_append, hopen.2, unbegun_runHookList h₁]
        rfl
      · have hcalls : Trace.calls (⟨.aborted, x, b'⟩ :: (t₄ ++ ⟨.aborted, y, b''⟩ :: t₆)) =
            t₄.calls ++ Trace.calls (⟨.aborted, y, b''⟩ :: t₆) := Trace.calls_append t₄ _
        rw [List.nil_append, hcalls, hclose.1, List.append_nil]
        exact forall₂_runHookList (fun h hm => by rw [phase_of_mem_hooksOf h hm]; rfl) h₄ ht₄.tame
      · have hbegins : Trace.begins (⟨.aborted, x, b'⟩ :: (t₄ ++ ⟨.aborted, y, b''⟩ :: t₆)) =
            (t₄.begins || Trace.begins (⟨.aborted, y, b''⟩ :: t₆)) := Trace.begins_append
        rw [List.nil_append, hbegins, hclose.2, unbegun_runHookList h₄]
        rfl
      · rintro r rfl
        rw [(goes_finish hfinish).1]
        rfl

end Turns

/-- Hooks of the suite bracket the features, and hooks of a feature its scenarios: those before are
called up to the first that fails, those after are all called, and features that are not started get
none. In the runs of scenarios hooks of suites and features are not called. -/
theorem course_of_run {o : Except Fault SuiteResult} (h : (s.run features).Shows t o)
    (ho : s.Orderly features) (hw : s.workers ≤ 1) (ht : t.Smooth requested) :
    ∃ rs, s.Course (fun f p u r => (s.executor.run p.1 (some f) (some (f.idOf p.2 p.1))).Runs u (.ok r) ∧
        ∀ k ∈ u.calls, k.onContext = true) features requested t rs ∧
      ∀ r, o = .ok r → r.features.map (·.scenarios) = rs := by
  obtain ⟨l', hrun⟩ := shows_run_iff.1 h
  have hQ : s.Stages (fun f p u r =>
      (s.executor.run p.1 (some f) (some (f.idOf p.2 p.1))).Runs u (.ok r) ∧
        ∀ k ∈ u.calls, k.onContext = true) features := by
    intro f hf p hp u o hu hsmooth
    cases o with
    | ok r => exact ⟨r, rfl, hu, fun k hk => Executor.onContext_of_run hu hk⟩
    | error e =>
      have horderly := ho.executor hf (mem_of_mem_numbered hp) (some (f.idOf p.2 p.1))
      obtain ⟨r, hr⟩ := Executor.raised_run hu horderly hsmooth.tame
      cases Option.isNone_iff_eq_none.1 (List.all_eq_true.1 hsmooth.taken _ hr)
  obtain ⟨l, hcourse, hl⟩ := course_runAll hQ ho hw hrun ht
  exact ⟨_, hcourse, fun r hr => by rw [hl r hr]⟩

theorem course_of_run_sample :
    let s := Sample.suite [Sample.hook .beforeSuite 1 "open", Sample.hook .beforeFeature 2 "unlock",
      Sample.hook .afterFeature 3 "lock", Sample.hook .afterSuite 4 "close"] 1 false
    let w := Sample.surroundings (fun _ => none)
      fun n => if n = 2 then some (.ofKind "KeyboardInterrupt" "") else none
    let features := [Sample.feature "bookings", Sample.feature "payments"]
    let t := w.showing (s.run features) ⟨0, false⟩
    s.workers = 1 ∧ t.Smooth false ∧
      ∃ rs, s.Course (fun f p u r =>
          (s.executor.run p.1 (some f) (some (f.idOf p.2 p.1))).Runs u (.ok r) ∧
            ∀ k ∈ u.calls, k.onContext = true) features false t rs := by
  intro s w features t
  have hw : w.Tame := by
    refine Sample.tame fun n f hf => ?_
    split at hf
    · cases hf
      decide
    · cases hf
  have ht : t.Smooth false := w.smooth_showing hw (fun _ => rfl) _ ⟨0, false⟩
  obtain ⟨_, _, hshows⟩ := w.exists_shows_showing (p := s.run features) (s := ⟨0, false⟩) (by decide +kernel)
  obtain ⟨rs, hcourse, _⟩ :=
    course_of_run hshows (Sample.suite_orderly (by decide)) (Nat.le_refl 1) ht
  exact ⟨rfl, ht, rs, hcourse⟩

end Suite
end Rehearsal
