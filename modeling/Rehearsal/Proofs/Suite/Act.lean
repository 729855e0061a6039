import Rehearsal.Proofs.Scenario.Whole
import Rehearsal.Proofs.Suite.Trace

/-! The acts of which the run of a suite is made, and what they carry. A relation that composes and in
which every act stands holds of the hooks of a phase, of a feature, and of the loop over the features
with what it is recovered by. -/

namespace Rehearsal.Suite
set_option autoImplicit false

variable {s : Suite} {l l' : List FeatureResult} {t : Trace}

theorem goes_emit {r : Record} {o : Except Fault Unit} (h : Goes (s.emit r) l t o l') :
    l' = l ∧ s.executor.Hands r t (errorIn o) := by
  unfold emit at h
  split at h
  · rename_i hs
    obtain ⟨rfl, f, b, rfl, ho⟩ := goes_perform_proceed_iff.1 h
    rw [ho]
    exact ⟨rfl, .loud _ _ hs⟩
  · rename_i hs
    obtain ⟨rfl, rfl, rfl⟩ := goes_pure_iff.1 h
    exact ⟨rfl, .silent (Bool.not_eq_true _ ▸ hs)⟩

theorem goes_log {level : LogLevel} {message : String} {fields : List (String × Datum)}
    {o : Except Fault Unit} (h : Goes (s.log level message fields) l t o l') :
    l' = l ∧ t.offstage = true ∧ (t.tame = true → o = .ok ()) := by
  unfold log at h
  split at h
  · obtain ⟨rfl, f, b, rfl, ho⟩ := goes_perform_proceed_iff.1 h
    change Option Fault at f
    refine ⟨rfl, rfl, fun ht => ?_⟩
    cases o with
    | ok _ => rfl
    | error g =>
      obtain rfl : some g = f := ho
      cases ht
  · obtain ⟨rfl, rfl, rfl⟩ := goes_pure_iff.1 h
    exact ⟨rfl, rfl, fun _ => rfl⟩

theorem ok_of_log {level : LogLevel} {message : String} {fields : List (String × Datum)}
    {o : Except Fault Unit} (h : Goes (s.log level message fields) l t o l')
    (ht : t.logged = true) : o = .ok () := by
  obtain ⟨_, hoff, hok⟩ := goes_log h
  unfold log at h
  split at h
  · obtain ⟨rfl, f, b, rfl, ho⟩ := goes_perform_proceed_iff.1 h
    change Option Fault at f
    cases f with
    | none => exact hok rfl
    | some f => cases ht
  · exact (goes_pure_iff.1 h).2.1

/-- How the call of a hook counts. An exit counts as nothing, as it goes through. -/
def countsAs (s : Suite) (place : String) : Option Fault → Status × Option ErrorInfo
  | none => (.passed, none)
  | some f =>
    match f.family with
    | .pending | .ordinary => (.failed, some (.ofFault f place s.policy.captureStack))
    | .interrupt | .exit => (.failed, some (.ofFault f place false))

def hookResult (s : Suite) (h : Hook) (f : Option Fault) : HookResult :=
  ⟨h.phase, h.name, (s.countsAs h.name f).1, none, (s.countsAs h.name f).2, noDuration⟩

/-- A call is one moment; what follows it is not seen. -/
theorem goes_invoke {callable : Callable} {scope : Scope} {place : String}
    {o : Except Fault (Status × Option ErrorInfo)}
    (h : Goes (s.invoke callable scope place) l t o l') :
    l' = l ∧ ∃ f b, ∃ u : Trace, t = ⟨.call callable [.scope scope], f, b⟩ :: u ∧
      u.offstage = true ∧ (∀ r, o = .ok r → r = s.countsAs place f) ∧
      (t.tame = true → o = .ok (s.countsAs place f)) := by
  obtain ⟨f, b, u, rfl, hk⟩ := goes_perform_bind_iff.1 h
  change Option Fault at f
  suffices hs : l' = l ∧ Trace.offstage u = true ∧ (∀ r, o = .ok r → r = s.countsAs place f) ∧
      (f.all (·.family != .exit) = true → o = .ok (s.countsAs place f)) by
    obtain ⟨rfl, hu, ho, ht⟩ := hs
    refine ⟨rfl, f, b, u, rfl, hu, ho, fun h => ?_⟩
    rw [Trace.tame_cons, Bool.and_eq_true, Moment.tame_call] at h
    exact ht h.1
  rcases f with _ | f
  · obtain ⟨rfl, rfl, rfl⟩ := goes_pure_iff.1 hk
    simp [countsAs, Trace.offstage]
  · cases hf : f.family with
    | pending | ordinary =>
      simp only [hf] at hk
      obtain ⟨rfl, rfl, rfl⟩ := goes_pure_iff.1 hk
      simp [countsAs, Trace.offstage, hf]
    | interrupt =>
      simp only [hf] at hk
      obtain ⟨_, b, v, rfl, hp⟩ := goes_perform_bind_iff.1 hk
      obtain ⟨rfl, rfl, rfl⟩ := goes_pure_iff.1 hp
      simp [countsAs, Trace.offstage, Moment.isOffstage, hf]
    | exit =>
      simp only [hf] at hk
      obtain ⟨rfl, rfl, rfl⟩ := goes_throw_iff.1 hk
      simp [Trace.offstage, hf]

/-- The result that features and hooks make, with what the signal shows. -/
def made (s : Suite) (features : List FeatureResult) (hooks : List HookResult) (aborted : Bool) :
    SuiteResult :=
  ⟨Status.worst .passed (features.map (·.status) ++ hooks.map (·.status)), features, hooks, aborted,
    s.strict⟩

theorem goes_result_iff {hooks : List HookResult} {o : Except Fault SuiteResult} :
    Goes (s.result hooks) l t o l' ↔
      l' = l ∧ ∃ x b, t = [⟨.aborted, x, b⟩] ∧ o = .ok (s.made l hooks x) := by
  rw [result, goes_get_bind_iff]
  refine goes_perform_bind_iff.trans ?_
  constructor
  · rintro ⟨x, b, u, rfl, h⟩
    obtain ⟨rfl, rfl, rfl⟩ := goes_pure_iff.1 h
    exact ⟨rfl, x, b, rfl, rfl⟩
  · rintro ⟨rfl, x, b, rfl, rfl⟩
    exact ⟨x, b, [], rfl, goes_pure_iff.2 ⟨rfl, rfl, rfl⟩⟩

theorem runFeature_eq (s : Suite) (f : Feature) :
    s.runFeature f = (do
      let hooks ← s.runHooks .beforeFeature (.feature f none)
      let scenarios ←
        (if allWell hooks then s.runScenarios f else s.skipScenarios f f.numbered)
      let after ←
        s.runHooks .afterFeature (.feature f (some (featureResult f scenarios hooks)))
      s.emit (.feature (featureResult f scenarios (hooks ++ after)))
      return featureResult f scenarios (hooks ++ after)) := by
  refine congrArg _ (funext fun hooks => ?_)
  cases allWell hooks <;> rfl

/-- A feature that gives its result went through its hooks, its scenarios and its closing hooks, and
told of the result. -/
theorem parts_of_runFeature {f : Feature} {r : FeatureResult}
    (h : Goes (s.runFeature f) l t (.ok r) l') :
    ∃ hooks rs after l₁ l₂ l₃ t₁ t₂ t₃ t₄, t = t₁ ++ (t₂ ++ (t₃ ++ t₄)) ∧
      r = featureResult f rs (hooks ++ after) ∧
      Goes (s.runHooks .beforeFeature (.feature f none)) l t₁ (.ok hooks) l₁ ∧
      Goes (if allWell hooks then s.runScenarios f else s.skipScenarios f f.numbered) l₁ t₂ (.ok rs)
        l₂ ∧
      Goes (s.runHooks .afterFeature (.feature f (some (featureResult f rs hooks)))) l₂ t₃ (.ok after)
        l₃ ∧
      Goes (s.emit (.feature r)) l₃ t₄ (.ok ()) l' := by
  rw [runFeature_eq] at h
  obtain ⟨t₁, _, hooks, l₁, rfl, hbefore, h₁⟩ := goes_bind_ok_iff.1 h
  obtain ⟨t₂, _, rs, l₂, rfl, hscenarios, h₂⟩ := goes_bind_ok_iff.1 h₁
  obtain ⟨t₃, t₄, after, l₃, rfl, hafter, h₃⟩ := goes_bind_ok_iff.1 h₂
  obtain ⟨_, rfl, hemit⟩ := goes_bind_pure_ok_iff.1 h₃
  exact ⟨hooks, rs, after, l₁, l₂, l₃, t₁, t₂, t₃, t₄, rfl, rfl, hbefore, hscenarios, hafter, hemit⟩

/-- A feature that is skipped tells of its scenarios and then of its result. -/
theorem parts_of_skipFeature {f : Feature} {r : FeatureResult}
    (h : Goes (s.skipFeature f) l t (.ok r) l') :
    ∃ rs l₁ t₁ t₂, t = t₁ ++ t₂ ∧ r = ⟨f.name, .skipped, rs, [], f.path⟩ ∧
      Goes (s.skipScenarios f f.numbered) l t₁ (.ok rs) l₁ ∧
      Goes (s.emit (.feature r)) l₁ t₂ (.ok ()) l' := by
  obtain ⟨t₁, t₂, rs, l₁, rfl, hskip, hk⟩ := goes_bind_ok_iff.1 h
  obtain ⟨_, rfl, hemit⟩ := goes_bind_pure_ok_iff.1 hk
  exact ⟨rs, l₁, t₁, t₂, rfl, rfl, hskip, hemit⟩

theorem runFeatures_cons (s : Suite) (ready : Bool) (f : Feature) (fs : List Feature) :
    s.runFeatures ready (f :: fs) = (do
      let skipped ← (if ready then Action.aborted else pure true)
      let result ← (if skipped then s.skipFeature f else s.runFeature f)
      modify (· ++ [result])
      s.runFeatures ready fs) := by
  cases ready with
  | true =>
    change Action.aborted >>= _ = Action.aborted >>= _
    refine congrArg _ (funext fun skipped => ?_)
    cases skipped <;> rfl
  | false => rfl

/-- Features are skipped as in a suite that is not ready. -/
theorem skipFeatures_eq (s : Suite) (fs : List Feature) :
    s.skipFeatures fs = s.runFeatures false fs := by
  induction fs with
  | nil => rfl
  | cons f fs ih =>
    rw [runFeatures_cons, skipFeatures, ih]
    rfl

/-- Choosing the hooks of a feature and of its scenarios does not fail, and coercers report their
failures. -/
structure Orderly (s : Suite) (features : List Feature) : Prop where
  feature : ∀ f ∈ features, ∀ phase, ∃ hooks, s.registry.lookup phase (some f.tags) = .ok hooks
  scenario : ∀ f ∈ features, ∀ c ∈ f.scenarios, ∀ phase,
    ∃ hooks, s.registry.lookup phase (some (f.effectiveTags c)) = .ok hooks
  reports : s.matcher.coercions.Reports

theorem Orderly.executor {features : List Feature} (ho : s.Orderly features) {f : Feature}
    (hf : f ∈ features) {c : Scenario} (hc : c ∈ f.scenarios) (id : Option String) :
    s.executor.Orderly (.named c (some f) id) :=
  ⟨ho.scenario f hf c hc, ho.reports⟩

theorem mem_of_mem_numbered {f : Feature} {p : Scenario × Nat} (hp : p ∈ f.numbered) :
    p.1 ∈ f.scenarios := by
  obtain ⟨c, i⟩ := p
  exact (List.mem_zipIdx' hp).2 ▸ List.getElem_mem _

/-- What is done after an interrupt: the features that have no result are skipped. -/
def salvage (s : Suite) (features : List Feature) : Action Unit := do
  Action.perform (.abort (some "interrupted"))
  let done := (← get).length
  s.log .warning "interrupted" [("features_done", .nat done)]
  s.skipFeatures (features.drop done)

theorem goes_recover {features : List Feature} {r : Except Fault Unit}
    {o : Except Fault (Except Fault Unit)} (h : Goes (s.recover features r) l t o l') :
    ∃ r', o = .ok r' ∧
      (t = [] ∧ r' = r ∧ l' = l ∧ (∀ f, r = .error f → f.family ≠ .interrupt) ∨
        ∃ f, r = .error f ∧ f.family = .interrupt ∧ Goes (s.salvage features) l t r' l') := by
  cases r with
  | ok _ =>
    obtain ⟨rfl, rfl, rfl⟩ := goes_pure_iff.1 h
    exact ⟨_, rfl, .inl ⟨rfl, rfl, rfl, nofun⟩⟩
  | error f =>
    rw [recover] at h
    split at h
    · rename_i hf
      obtain ⟨r', rfl, hx⟩ := goes_observe_iff.1 h
      exact ⟨r', rfl, .inr ⟨f, rfl, eq_of_beq hf, hx⟩⟩
    · rename_i hf
      obtain ⟨rfl, rfl, rfl⟩ := goes_pure_iff.1 h
      refine ⟨_, rfl, .inl ⟨rfl, rfl, rfl, ?_⟩⟩
      rintro g hg
      cases hg
      exact fun hi => hf (beq_iff_eq.2 hi)

/-- Every way in which an action goes stands in a relation. -/
def Carries {α : Type} (K : List FeatureResult → Trace → Option Fault → List FeatureResult → Prop)
    (x : Action α) : Prop :=
  ∀ ⦃l t o l'⦄, Goes x l t o l' → K l t (errorIn o) l'

variable {K : List FeatureResult → Trace → Option Fault → List FeatureResult → Prop}
  {α β : Type}

theorem carries_get_bind {f : List FeatureResult → Action β} (hf : ∀ l, Carries K (f l)) :
    Carries K (get >>= f) := by
  intro l t o l' h
  exact hf l (goes_get_bind_iff.1 h)

theorem carries_settle_bind {r : Except Fault α} {f : α → Action β}
    (he : ∀ e, r = .error e → ∀ l, K l [] (some e) l) (hf : ∀ a, r = .ok a → Carries K (f a)) :
    Carries K (Action.settle r >>= f) := by
  intro l t o l' h
  rcases goes_settle_bind_iff.1 h with ⟨a, rfl, h⟩ | ⟨e, rfl, rfl, rfl, rfl⟩
  · exact hf a rfl h
  · exact he e rfl _

section Carries
variable (hK : Sequential K)
include hK

theorem carries_pure (a : α) : Carries K (pure a) := by
  intro l t o l' h
  obtain ⟨rfl, rfl, rfl⟩ := goes_pure_iff.1 h
  exact hK.refl _

theorem carries_bind {x : Action α} {f : α → Action β} (hx : Carries K x)
    (hf : ∀ a, Carries K (f a)) : Carries K (x >>= f) := by
  intro l t o l' h
  rcases goes_bind_iff.1 h with ⟨u, v, a, l₁, rfl, h₁, h₂⟩ | ⟨e, rfl, h₁⟩
  · exact hK.trans (hx h₁) (hf a h₂)
  · exact hx h₁

end Carries

/-- A relation in which every act of hooks stands: what is not seen, calls with scopes of a kind, and
handing over records of a kind. -/
structure HookActs (s : Suite)
    (K : List FeatureResult → Trace → Option Fault → List FeatureResult → Prop)
    (P : Record → Prop) (C : Scope → Prop) : Prop extends Sequential K where
  aside : ∀ {l t e}, t.offstage = true → (t.tame = true → e = none) → K l t e l
  call : ∀ callable scope place, C scope → Carries K (s.invoke callable scope place)
  emit : ∀ r, P r → Carries K (s.emit r)

namespace HookActs
variable {P : Record → Prop} {C : Scope → Prop} (A : HookActs s K P C)
include A

theorem log {level : LogLevel} {message : String} {fields : List (String × Datum)} :
    Carries K (s.log level message fields) := by
  intro l t o l' h
  obtain ⟨rfl, hoff, ho⟩ := goes_log h
  exact A.aside hoff fun ht => by rw [ho ht, errorIn_ok]

theorem runHook {scope : Scope} {h : Hook} (hC : C scope)
    (hP : ∀ r : HookResult, r.phase = h.phase → P (.hook r)) : Carries K (s.runHook scope h) := by
  have hseq := A.toSequential
  refine carries_bind hseq (A.call _ _ _ hC) fun r => ?_
  refine carries_bind hseq (A.emit _ (hP _ rfl)) fun _ => ?_
  split
  · exact carries_bind hseq A.log fun _ => carries_pure hseq _
  · exact carries_bind hseq (carries_pure hseq _) fun _ => carries_pure hseq _

theorem runHookList {scope : Scope} {hs : List Hook} (hC : C scope)
    (hP : ∀ h ∈ hs, ∀ r : HookResult, r.phase = h.phase → P (.hook r)) :
    Carries K (s.runHookList scope hs) := by
  have hseq := A.toSequential
  induction hs with
  | nil => exact carries_pure hseq _
  | cons h hs ih =>
    obtain ⟨hh, hrest⟩ := List.forall_mem_cons.1 hP
    refine carries_bind hseq (A.runHook hC hh) fun r => ?_
    split
    · exact carries_pure hseq _
    · exact carries_bind hseq (ih hrest) fun _ => carries_pure hseq _

theorem runHooks {phase : HookPhase} {scope : Scope}
    (hl : ∀ f, s.registry.lookup phase scope.tags = .error f → ∀ l, K l [] (some f) l)
    (hC : C scope) (hP : ∀ r : HookResult, r.phase = phase → P (.hook r)) :
    Carries K (s.runHooks phase scope) := by
  refine carries_settle_bind hl fun hooks hs => A.runHookList hC fun h hm => ?_
  rw [Registry.phase_of_mem_lookup hs hm]
  exact hP

/-- The hooks of a suite are not chosen by tags. -/
theorem suiteHooks {phase : HookPhase} {features : List Feature} {shown : Option SuiteResult}
    (hC : C (.suite features shown)) (hP : ∀ r : HookResult, r.phase = phase → P (.hook r)) :
    Carries K (s.runHooks phase (.suite features shown)) := by
  refine A.runHooks (fun f hf => ?_) hC hP
  cases Registry.lookup_untagged.symm.trans hf

theorem skipScenarios (hP : ∀ r, P (.scenario r)) {f : Feature} {ps : List (Scenario × Nat)} :
    Carries K (s.skipScenarios f ps) := by
  have hseq := A.toSequential
  induction ps with
  | nil => exact carries_pure hseq _
  | cons p ps ih =>
    refine carries_bind hseq (A.emit _ (hP _)) fun _ => ?_
    exact carries_bind hseq ih fun _ => carries_pure hseq _

theorem skipFeature {f : Feature} (hscenario : ∀ r, P (.scenario r)) (hfeature : ∀ r, P (.feature r)) :
    Carries K (s.skipFeature f) := by
  have hseq := A.toSequential
  refine carries_bind hseq (A.skipScenarios hscenario) fun _ => ?_
  exact carries_bind hseq (A.emit _ (hfeature _)) fun _ => carries_pure hseq _

theorem skipFeatures (hkeep : ∀ l r, K l [] none (l ++ [r])) {fs : List Feature}
    (hscenario : ∀ r, P (.scenario r)) (hfeature : ∀ r, P (.feature r)) :
    Carries K (s.skipFeatures fs) := by
  have hseq := A.toSequential
  induction fs with
  | nil => exact carries_pure hseq _
  | cons f fs ih =>
    refine carries_bind hseq (A.skipFeature hscenario hfeature) fun r => ?_
    intro l t o l' h
    rw [goes_modify_bind_iff] at h
    exact hseq.trans (hkeep l r) (ih h)

theorem salvage (hkeep : ∀ l r, K l [] none (l ++ [r])) {features : List Feature}
    (hscenario : ∀ r, P (.scenario r)) (hfeature : ∀ r, P (.feature r)) :
    Carries K (s.salvage features) := by
  intro l t o l' h
  obtain ⟨_, b, u, rfl, hk⟩ := goes_perform_bind_iff.1 h
  have habort : K l [⟨.abort (some "interrupted"), (), b⟩] none l := A.aside rfl fun _ => rfl
  refine A.trans habort ((carries_get_bind fun l => ?_) hk)
  exact carries_bind A.toSequential A.log fun _ => A.skipFeatures hkeep hscenario hfeature

theorem runInOrder {f : Feature} {ps : List (Scenario × Nat)}
    (hjob : ∀ p ∈ ps, Carries K (Action.job (s.scenarioJob f p.1 p.2))) :
    Carries K (s.runInOrder f ps) := by
  have hseq := A.toSequential
  induction ps with
  | nil => exact carries_pure hseq _
  | cons p ps ih =>
    obtain ⟨hp, hrest⟩ := List.forall_mem_cons.1 hjob
    refine carries_bind hseq hp fun _ => ?_
    exact carries_bind hseq (ih hrest) fun _ => carries_pure hseq _

end HookActs

/-- Records that the loop over the features hands over, apart from those of runs of scenarios. -/
def ofLoop : Record → Bool
  | .hook r => r.phase == .beforeFeature || r.phase == .afterFeature
  | .scenario _ | .feature _ => true
  | _ => false

/-- A relation in which every act in the loop over the features stands, but for keeping results. What
is not orderly may go astray at any time. -/
structure LoopActs (s : Suite) (features : List Feature)
    (K : List FeatureResult → Trace → Option Fault → List FeatureResult → Prop)
    (P : Record → Prop) (C : Scope → Prop) : Prop
    extends HookActs s K P C where
  admitsRecord : ∀ r, ofLoop r = true → P r
  admitsScope : ∀ f r, C (.feature f r)
  stray : ¬ s.Orderly features → ∀ l f, K l [] (some f) l
  scenario : ∀ f ∈ features, ∀ p ∈ f.numbered, Carries K (Action.job (s.scenarioJob f p.1 p.2))
  pool : 1 < s.workers → ∀ f ∈ features, Carries K (s.runInPool f)

namespace LoopActs
variable {features : List Feature} {P : Record → Prop} {C : Scope → Prop}
  (A : LoopActs s features K P C)
include A

theorem featureHooks {f : Feature} (hf : f ∈ features) {phase : HookPhase}
    {shown : Option FeatureResult} (hp : phase = .beforeFeature ∨ phase = .afterFeature) :
    Carries K (s.runHooks phase (.feature f shown)) := by
  refine A.runHooks (fun e he l => A.stray (fun ho => ?_) l e) (A.admitsScope f shown) fun r hr => ?_
  · obtain ⟨hooks, hs⟩ := ho.feature f hf phase
    cases hs.symm.trans he
  · exact A.admitsRecord _ (by rcases hp with rfl | rfl <;> simp [ofLoop, hr])

theorem scenarios {f : Feature} (hf : f ∈ features) {ready : Bool} :
    Carries K (if ready then s.runScenarios f else s.skipScenarios f f.numbered) := by
  split
  · rw [runScenarios]
    split
    · rename_i hpool
      exact A.pool hpool f hf
    · exact A.runInOrder fun p hp => A.scenario f hf p hp
  · exact A.skipScenarios fun _ => A.admitsRecord _ rfl

theorem runFeature {f : Feature} (hf : f ∈ features) : Carries K (s.runFeature f) := by
  have hseq := A.toSequential
  rw [runFeature_eq]
  refine carries_bind hseq (A.featureHooks hf (.inl rfl)) fun hooks => ?_
  refine carries_bind hseq (A.scenarios hf) fun scenarios => ?_
  refine carries_bind hseq (A.featureHooks hf (.inr rfl)) fun after => ?_
  exact carries_bind hseq (A.emit _ (A.admitsRecord _ rfl)) fun _ => carries_pure hseq _

theorem aborted : Carries K Action.aborted := by
  intro l t o l' h
  obtain ⟨rfl, x, b, rfl, rfl⟩ := goes_perform_iff.1 h
  exact A.aside rfl fun _ => rfl

theorem ask {ready : Bool} : Carries K (if ready then Action.aborted else pure true) := by
  split
  · exact A.aborted
  · exact carries_pure A.toSequential _

theorem turn {f : Feature} (hf : f ∈ features) {skipped : Bool} :
    Carries K (if skipped then s.skipFeature f else s.runFeature f) := by
  split
  · exact A.skipFeature (fun _ => A.admitsRecord _ rfl) fun _ => A.admitsRecord _ rfl
  · exact A.runFeature hf

end LoopActs

/-- A relation in which every act of the loop over the features stands, and keeping their results. -/
structure SuiteActs (s : Suite) (features : List Feature)
    (K : List FeatureResult → Trace → Option Fault → List FeatureResult → Prop)
    (P : Record → Prop) (C : Scope → Prop) : Prop
    extends LoopActs s features K P C where
  keep : ∀ l r, K l [] none (l ++ [r])

namespace SuiteActs
variable {features : List Feature} {P : Record → Prop} {C : Scope → Prop}
  (A : SuiteActs s features K P C)
include A

theorem kept {r : FeatureResult} {x : Action Unit} (hx : Carries K x) :
    Carries K (do modify (· ++ [r]); x) := by
  intro l t o l' h
  rw [goes_modify_bind_iff] at h
  exact A.trans (A.keep l r) (hx h)

theorem runFeatures {ready : Bool} {fs : List Feature} (hfs : ∀ f ∈ fs, f ∈ features) :
    Carries K (s.runFeatures ready fs) := by
  have hseq := A.toSequential
  induction fs with
  | nil => exact carries_pure hseq _
  | cons f fs ih =>
    obtain ⟨hf, hrest⟩ := List.forall_mem_cons.1 hfs
    rw [runFeatures_cons]
    refine carries_bind hseq A.ask fun skipped => ?_
    exact carries_bind hseq (A.turn hf) fun _ => A.kept (ih hrest)

theorem salvage : Carries K (s.salvage features) :=
  A.toHookActs.salvage A.keep (fun _ => A.admitsRecord _ rfl) fun _ => A.admitsRecord _ rfl

end SuiteActs

theorem SuiteActs.recover {features : List Feature} {L : Trace → Prop} {P : Record → Prop}
    {C : Scope → Prop} (A : SuiteActs s features (fun _ t _ _ => L t) P C) {r : Except Fault Unit} :
    Carries (fun _ t _ _ => L t) (s.recover features r) := by
  intro l t o l' h
  obtain ⟨_, _, ⟨rfl, _⟩ | ⟨_, _, _, hsalvage⟩⟩ := goes_recover h
  · exact A.refl l
  · exact A.salvage hsalvage

end Rehearsal.Suite
