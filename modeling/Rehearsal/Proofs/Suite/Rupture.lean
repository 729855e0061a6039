import Rehearsal.Proofs.Scenario.Ownership
import Rehearsal.Proofs.Scenario.Requests
import Rehearsal.Proofs.Suite.Closing
import Rehearsal.Proofs.Suite.Halt
import Rehearsal.Proofs.Suite.Requests

/-! Factories that are interrupted. The interrupt of a hook or a step is contained by its scenario, but
that of a factory goes through everything up to the loop over the features, and there it is recovered
from. What the interrupt passes on its way is not cleaned up: neither the scenario, of which some contexts
may be there, nor its feature. Callables may end in any way here. -/

namespace Rehearsal
set_option autoImplicit false

/-- Nothing is constructed. -/
def Request.unbuilding : Terms Request.Answer Fault := .asking fun r => r.builds = false

theorem Request.staged_unbuilding : Request.Staged unbuilding where
  emit _ := rfl
  log _ := rfl
  refused _ _ _ := trivial
  unlogged _ _ _ := trivial
  call _ _ _ := rfl
  aborted := rfl
  tie _ _ := rfl
  interrupted _ _ _ _ _ _ := rfl
  recovered _ _ _ _ := rfl
  exited _ _ _ _ _ := trivial
  untied _ _ _ _ := trivial
  ordinary _ _ := trivial

/-- Nothing is constructed. -/
def SuiteRequest.unbuilding : Terms SuiteRequest.Answer Fault :=
  asking (fun r => r.builds = false) fun _ => True

theorem SuiteRequest.framing_unbuilding : Framing (fun _ => True) unbuilding where
  emit _ := rfl
  log _ := rfl
  call _ _ _ := rfl
  aborted := rfl
  interrupted _ _ _ _ _ _ := rfl
  refused _ _ _ := trivial
  unlogged _ _ _ := trivial
  exited _ _ _ _ _ := trivial

/-- Hooks after a feature, and no others, are shown a result of it. -/
def Call.endsFeature : Call → Bool
  | ⟨_, [.scope (.feature _ (some _))]⟩ => true
  | _ => false

theorem Call.other_of_closes {k : Call} (h : k.closes = true) :
    k.cleansUp = false ∧ k.endsFeature = false := by
  unfold closes at h
  split at h
  · exact ⟨rfl, rfl⟩
  · cases h

theorem Moment.builds_of_construction {m : Moment Request.Answer Bool} {factory : Factory}
    {r : Except Fault Instance} (h : m.construction? = some (factory, r)) :
    m.request.builds = true := by
  rcases m with ⟨_ | _ | _ | _ | _ | _ | _ | _ | _ | _, _, _⟩ <;> first | rfl | cases h

theorem not_mem_of_unbuilding {t : Trace} {m : Moment Request.Answer Bool} {factory : Factory}
    {r : Except Fault Instance} (ht : ∀ n ∈ t, n.request.builds = false)
    (hm : m.construction? = some (factory, r)) : m ∉ t :=
  fun hmem => nomatch (ht m hmem).symm.trans (Moment.builds_of_construction hm)

namespace Composition
variable {t u v : Trace} {m : Moment Request.Answer Bool} {factory : Factory} {g : Fault}

theorem not_mem_of_constructions {r : Except Fault Instance} (ht : t.constructions = [])
    (hm : m.construction? = some (factory, r)) : m ∉ t :=
  fun hmem => nomatch (List.filterMap_eq_nil_iff.1 ht m hmem).symm.trans hm

end Composition

/-- A factory that raises what is not contained is the last that is called. -/
theorem rupture_of_compose {root : ContextSpec} {t u v : Trace} {m : Moment Request.Answer Bool}
    {factory : Factory} {g : Fault} {r : Except Broken Arena} (h : (compose root).Runs t r)
    (ht : t = u ++ m :: v) (hm : m.construction? = some (factory, .error g))
    (hg : Composition.escapes g = true) :
    v = [] ∧ r = .error ⟨g, none⟩ ∧
      ∃ built : List Instance, t.constructions.map (·.2) = built.map .ok ++ [.error g] := by
  obtain ⟨_, hcourse⟩ | ⟨_, rfl, _⟩ := Composition.course_compose h
  · have hgiven : (.error g : Except Fault Instance) ∈ t.constructions.map (·.2) := by
      rw [ht]
      exact List.mem_map_of_mem
        (List.mem_filterMap.2 ⟨m, List.mem_append_right _ List.mem_cons_self, hm⟩)
    obtain ⟨built, hbuilt, _⟩ | ⟨built, f, hbuilt, hends⟩ := hcourse.outcomes
    · rw [hbuilt] at hgiven
      exact absurd hgiven Composition.not_mem_error_map_ok
    rw [hbuilt, List.mem_append, List.mem_singleton] at hgiven
    obtain rfl := Except.error.inj (hgiven.resolve_left Composition.not_mem_error_map_ok)
    obtain ⟨_, rfl, w, n, rfl, hw⟩ | ⟨_, _, ⟨_, _, _, _, hf, _⟩⟩ := hends
    · refine ⟨?_, rfl, built, hbuilt⟩
      have hnot : m ∉ w := by
        intro hmem
        have hgiven : (.error g : Except Fault Instance) ∈ w.constructions.map (·.2) :=
          List.mem_map_of_mem (List.mem_filterMap.2 ⟨m, hmem, hm⟩)
        rw [hw] at hgiven
        exact Composition.not_mem_error_map_ok hgiven
      obtain ⟨y, _, hlast⟩ := Trace.split_of_not_mem_left ht hnot
      obtain ⟨_, hrest⟩ | ⟨_, hrest⟩ := List.singleton_eq_append_iff.1 hlast
      · exact (List.cons.inj hrest).2
      · cases hrest
    · cases hg.symm.trans hf
  · simp at ht

namespace Executor
variable {x : Executor} {c : Case} {l l' : Ledger} {t u v : Trace} {m : Moment Request.Answer Bool}
  {factory : Factory} {g : Fault}

theorem rupture_of_setUp {o : Except Fault (Except Broken DispatchTable)}
    (h : Ends (x.setUp c) l t o l') (ht : t = u ++ m :: v)
    (hm : m.construction? = some (factory, .error g)) (hg : Composition.escapes g = true) :
    v = [] ∧ o = .ok (.error ⟨g, none⟩) ∧
      ∃ built : List Instance, t.constructions.map (·.2) = built.map .ok ++ [.error g] := by
  obtain ⟨_, w, z, rfl, hw, hz⟩ := composes_of_setUp h
  obtain ⟨y, _, rfl⟩ := Trace.split_of_not_mem_left ht
    (Composition.not_mem_of_constructions hw.constructions hm)
  rcases hz with ⟨_, hnil⟩ | ⟨q, hq, rfl⟩
  · simp at hnil
  · obtain ⟨rfl, rfl, built, hbuilt⟩ := rupture_of_compose hq rfl hm hg
    refine ⟨rfl, rfl, built, ?_⟩
    rw [Trace.constructions_append, hw.constructions, List.nil_append, hbuilt]

/-- A run ends where a factory raises what is not contained, and hands it on. -/
theorem rupture_of_run {scenario : Scenario} {feature : Option Feature} {id : Option String}
    {o : Except Fault ScenarioResult} (h : (x.run scenario feature id).Runs t o)
    (ht : t = u ++ m :: v) (hm : m.construction? = some (factory, .error g))
    (hg : Composition.escapes g = true) :
    v = [] ∧ o = .error g ∧ ∃ built, x.BreaksAt (.named scenario feature id) t built g := by
  obtain ⟨l', hcase⟩ := runs_run_iff.1 h
  have hset : ∀ {w w₁ w₂ : Trace} {q l₁}, Ends (x.setUp (.named scenario feature id)) .empty w q l₁ →
      w = w₁ ++ m :: w₂ → w₂ = [] ∧ q = .ok (.error ⟨g, none⟩) ∧
        ∃ built, x.BreaksAt (.named scenario feature id) w built g := by
    intro w w₁ w₂ q l₁ hs hw
    obtain ⟨hnil, hq, built, hbuilt⟩ := rupture_of_setUp hs hw hm hg
    exact ⟨hnil, hq, built, w, [], q, l₁, (List.append_nil w).symm, hs, hbuilt⟩
  rcases ends_runCase hcase with ⟨f, _, hs⟩ | ⟨w, z, q, rfl, hs, hk⟩
  · cases (hset hs ht).2.1
  · rcases q with b | d
    · dsimp only at hk
      split at hk
      · obtain ⟨rfl, rfl, _⟩ := hk
        rw [List.append_nil] at ht ⊢
        obtain ⟨rfl, hq, hbreaks⟩ := hset hs ht
        cases hq
        exact ⟨rfl, rfl, hbreaks⟩
      · rename_i hcontained
        have hunbuilding :=
          (confined_abandon Request.staged_unbuilding).of_ends hk fun _ _ => trivial
        have hnot := not_mem_of_unbuilding hunbuilding hm
        obtain ⟨w', hw, _⟩ := Trace.split_of_not_mem_right ht hnot
        obtain ⟨_, hq, _⟩ := hset hs hw
        cases hq
        exact absurd hg hcontained
    · have hcomposed : Confined Request.unbuilding (x.runComposed (.named scenario feature id) d) :=
        confined_runComposed Request.staged_unbuilding fun _ _ _ _ => .inr trivial
      have hnot := not_mem_of_unbuilding (hcomposed.of_ends hk fun _ _ => trivial) hm
      obtain ⟨w', hw, _⟩ := Trace.split_of_not_mem_right ht hnot
      cases (hset hs hw).2.1

end Executor

namespace Suite
variable {s : Suite} {l l' : List FeatureResult} {t u v : Trace} {features : List Feature} {α : Type}
  {m : Moment Request.Answer Bool} {factory : Factory} {g : Fault} {requested : Bool}

/-- A factory that raises what is not contained is the last that is seen of a part, which ends in that. It
was called while a scenario of some features was set up. -/
def Ruptures (s : Suite) (features : List Feature) (_ : List FeatureResult) (t : Trace)
    (e : Option Fault) (_ : List FeatureResult) : Prop :=
  ∀ u m v factory g, t = u ++ m :: v → m.construction? = some (factory, .error g) →
    Composition.escapes g = true → v = [] ∧ e = some g ∧
      ∃ f ∈ features, ∃ p ∈ f.numbered, ∃ before w built, t = before ++ w ∧
        s.executor.BreaksAt (.named p.1 (some f) (some (f.idOf p.2 p.1))) w built g

theorem unbuilding_of_goes {x : Action α} (hx : Confined SuiteRequest.unbuilding x)
    {o : Except Fault α} (h : Goes x l t o l') : ∀ m ∈ t, m.request.builds = false :=
  (Program.Asks.value_of_shows (hx l) h).1

theorem ruptures_of_unbuilding {e : Option Fault} (ht : ∀ m ∈ t, m.request.builds = false) :
    s.Ruptures features l t e l' := by
  rintro u m v factory g rfl hm _
  exact absurd (by simp) (not_mem_of_unbuilding ht hm)

theorem unbuilding_recover {r : Except Fault Unit} {o : Except Fault (Except Fault Unit)}
    (h : Goes (s.recover features r) l t o l') : ∀ m ∈ t, m.request.builds = false :=
  unbuilding_of_goes (confined_recover SuiteRequest.framing_unbuilding fun _ => rfl) h

theorem sequential_ruptures : Sequential (s.Ruptures features) where
  refl _ := ruptures_of_unbuilding (List.forall_mem_nil _)
  trans {_ _ _ t _ _} ht hu := by
    intro w m z factory g hsplit hm hg
    rcases split_append hsplit with ⟨y, _, hy⟩ | ⟨y, hy, _⟩
    · obtain ⟨rfl, he, f, hf, p, hp, before, w', built, rfl, hbreaks⟩ := hu y m z factory g hy hm hg
      exact ⟨rfl, he, f, hf, p, hp, t ++ before, w', built, (List.append_assoc ..).symm, hbreaks⟩
    · cases (ht w m y factory g hy hm hg).2.1

theorem carries_of_confined {x : Action α} (hx : Confined SuiteRequest.unbuilding x) :
    Carries (s.Ruptures features) x :=
  fun _ _ _ _ h => ruptures_of_unbuilding (unbuilding_of_goes hx h)

theorem ruptures_scenarioJob {f : Feature} (hf : f ∈ features) {p : Scenario × Nat}
    (hp : p ∈ f.numbered) :
    Carries (s.Ruptures features) (Action.job (s.scenarioJob f p.1 p.2)) := by
  intro l t o l' h
  obtain ⟨x, b, w, rfl, hw⟩ := runs_scenarioJob (goes_job_iff.1 h).2
  have hpoll : s.Ruptures features l [⟨.aborted, x, b⟩] none l :=
    ruptures_of_unbuilding (List.forall_mem_singleton.2 rfl)
  refine sequential_ruptures.trans hpoll ?_
  rcases hw with ⟨_, hh, _⟩ | ⟨_, hrun⟩
  · intro u m v factory g hsplit hm _
    exact absurd (hsplit ▸ List.mem_append_right u List.mem_cons_self)
      (Composition.not_mem_of_constructions hh.constructions hm)
  · intro u m v factory g hsplit hm hg
    obtain ⟨rfl, rfl, built, hbreaks⟩ := Executor.rupture_of_run hrun hsplit hm hg
    exact ⟨rfl, rfl, f, hf, p, hp, [], w, built, rfl, hbreaks⟩

theorem ruptures_runFeature {f : Feature} (hf : f ∈ features) (hw : s.workers ≤ 1) :
    Carries (s.Ruptures features) (s.runFeature f) := by
  have hseq : Sequential (s.Ruptures features) := sequential_ruptures
  have hframing := SuiteRequest.framing_unbuilding
  have horder : ∀ ps : List (Scenario × Nat), (∀ p ∈ ps, p ∈ f.numbered) →
      Carries (s.Ruptures features) (s.runInOrder f ps) := by
    intro ps hps
    induction ps with
    | nil => exact carries_pure hseq _
    | cons p ps ih =>
      obtain ⟨hp, hrest⟩ := List.forall_mem_cons.1 hps
      refine carries_bind hseq (ruptures_scenarioJob hf hp) fun _ => ?_
      exact carries_bind hseq (ih hrest) fun _ => carries_pure hseq _
  have hhooks : ∀ phase scope, Carries (s.Ruptures features) (s.runHooks phase scope) :=
    fun _ _ => carries_of_confined (confined_runHooks hframing trivial fun _ _ => trivial)
  rw [runFeature_eq]
  refine carries_bind hseq (hhooks _ _) fun hooks => ?_
  refine carries_bind hseq ?_ fun rs => ?_
  · split
    · rw [runScenarios, if_neg (Nat.not_lt.2 hw)]
      exact horder _ fun _ => id
    · exact carries_of_confined (confined_skipScenarios hframing)
  · refine carries_bind hseq (hhooks _ _) fun after => ?_
    exact carries_bind hseq (carries_of_confined (confined_emit hframing _)) fun _ =>
      carries_pure hseq _

theorem ruptures_runFeatures {ready : Bool} {fs : List Feature} (hfs : ∀ f ∈ fs, f ∈ features)
    (hw : s.workers ≤ 1) : Carries (s.Ruptures features) (s.runFeatures ready fs) := by
  have hseq : Sequential (s.Ruptures features) := sequential_ruptures
  induction fs with
  | nil => exact carries_pure hseq _
  | cons f fs ih =>
    obtain ⟨hf, hrest⟩ := List.forall_mem_cons.1 hfs
    rw [runFeatures_cons]
    refine carries_bind hseq ?_ fun skipped => carries_bind hseq ?_ fun r => ?_
    · split
      · exact carries_of_confined (confined_perform rfl)
      · exact carries_pure hseq _
    · split
      · exact carries_of_confined (confined_skipFeature SuiteRequest.framing_unbuilding)
      · exact ruptures_runFeature hf hw
    · intro l t o l' h
      rw [goes_modify_bind_iff] at h
      have hothers : s.Ruptures features (l ++ [r]) t (errorIn o) l' := ih hrest h
      exact hothers

/-- What comes after an interrupt has broken off the loop over the features: the features without a result
are skipped, and then the hooks after the suite are called. -/
def Resumes (s : Suite) (features : List Feature) (t : Trace) (o : Except Fault SuiteResult)
    (l' : List FeatureResult) : Prop :=
  ∃ (t₁ t₂ t₃ : Trace) (x b : Bool) (hooks : List HookResult) (o₁ : Except Fault Unit)
      (o₂ : Except Fault (List HookResult)) (l₁ l₂ : List FeatureResult),
    t = t₁ ++ ⟨.aborted, x, b⟩ :: (t₂ ++ t₃) ∧ Goes (s.salvage features) l₁ t₁ o₁ l₂ ∧
    Goes (s.runHookList (.suite features (some (s.made l₂ hooks x)))
      (s.registry.hooksOf .afterSuite)) l₂ t₂ o₂ l₂ ∧
    match o₂ with
    | .error e => t₃ = [] ∧ o = .error e
    | .ok after => (∃ e, o₁ = .error e ∧ t₃ = [] ∧ o = .error e) ∨
        o₁ = .ok () ∧ ∃ (y b' : Bool) (t₄ : Trace), t₃ = ⟨.aborted, y, b'⟩ :: t₄ ∧
          Goes (s.finish (s.made l₂ (hooks ++ after) y)) l₂ t₄ o l'

/-- Nothing is built by the hooks after the suite, nor by what is told at the end. -/
theorem unbuilding_ending {t₁ t₂ : Trace} {scope : Scope} {hs : List Hook} {outcome : Except Fault Unit}
    {o₁ : Except Fault (List HookResult)} {o : Except Fault SuiteResult}
    {made : List HookResult → Bool → SuiteResult} {l₁ : List FeatureResult}
    (hend : match o₁ with
      | .error e => t₂ = [] ∧ o = .error e
      | .ok after => (∃ e, outcome = .error e ∧ t₂ = [] ∧ o = .error e) ∨
          outcome = .ok () ∧ ∃ (y b : Bool) (u : Trace), t₂ = ⟨.aborted, y, b⟩ :: u ∧
            Goes (s.finish (made after y)) l₁ u o l')
    (hafter : Goes (s.runHookList scope hs) l₁ t₁ o₁ l₁) :
    ∀ n ∈ t₁ ++ t₂, n.request.builds = false := by
  have hframing := SuiteRequest.framing_unbuilding
  refine List.forall_mem_append.2 ⟨unbuilding_of_goes (confined_runHookList hframing trivial) hafter, ?_⟩
  cases o₁ with
  | error e =>
    rw [hend.1]
    exact List.forall_mem_nil _
  | ok after =>
    rcases hend with ⟨_, _, rfl, _⟩ | ⟨_, y, b, u, rfl, hfinish⟩
    · exact List.forall_mem_nil _
    · refine List.forall_mem_cons.2 ⟨rfl, unbuilding_of_goes ?_ hfinish⟩
      exact confined_finish hframing rfl fun _ _ => trivial

/-- Where a factory is interrupted, the scenario that it is called for is being set up, and the loop over
the features ends with it. -/
theorem ruptures_runAll {o : Except Fault SuiteResult} (h : Goes (s.runAll features) [] t o l')
    (hw : s.workers ≤ 1) (ht : t = u ++ m :: v) (hm : m.construction? = some (factory, .error g))
    (hg : g.family = .interrupt) :
    s.Resumes features v o l' ∧ ∃ f ∈ features, ∃ p ∈ f.numbered, ∃ before w built,
      u ++ [m] = before ++ w ∧
        s.executor.BreaksAt (.named p.1 (some f) (some (f.idOf p.2 p.1))) w built g := by
  have hframing := SuiteRequest.framing_unbuilding
  have hnot : ∀ {w : Trace}, (∀ n ∈ w, n.request.builds = false) → m ∉ w :=
    fun hw => not_mem_of_unbuilding hw hm
  obtain ⟨b, t₀, w, o₀, rfl, hgreet, hk⟩ := goes_runAll_announced h
  obtain ⟨u, rfl, hw₀⟩ := Trace.split_of_not_mem_left (t := [⟨.resetAbort, (), b⟩]) ht
    (hnot (List.forall_mem_singleton.2 rfl))
  obtain ⟨u, rfl, rfl⟩ := Trace.split_of_not_mem_left hw₀
    (hnot (unbuilding_of_goes (confined_log hframing) hgreet))
  cases o₀ with
  | error e => simp at hk
  | ok _ =>
    obtain ⟨t₁, rest, o₁, ht, hbefore, hk⟩ := hk
    obtain ⟨u, rfl, rfl⟩ := Trace.split_of_not_mem_left ht.symm
      (hnot (unbuilding_of_goes (confined_runHookList hframing trivial) hbefore))
    cases o₁ with
    | error e => simp at hk
    | ok hooks =>
      obtain ⟨t₂, t₃, t₄, t₅, x, b', o₂, o₃, l₂, l₃, o₄, ht, hloop, hrecover, hafter, hend⟩ := hk
      have hrest : ∀ n ∈ t₃ ++ ⟨.aborted, x, b'⟩ :: (t₄ ++ t₅), n.request.builds = false :=
        List.forall_mem_append.2 ⟨unbuilding_recover hrecover,
          List.forall_mem_cons.2 ⟨rfl, unbuilding_ending hend hafter⟩⟩
      obtain ⟨w, rfl, rfl⟩ := Trace.split_of_not_mem_right ht.symm (hnot hrest)
      obtain ⟨rfl, ho, f, hf, p, hp, before, w, built, hsplit, hbreaks⟩ :=
        ruptures_runFeatures (fun _ => id) hw hloop u m w factory g rfl hm (by simp [Composition.escapes, hg])
      cases o₂ with
      | ok _ => cases ho
      | error e =>
        cases ho
        refine ⟨?_, f, hf, p, hp, ⟨.resetAbort, (), b⟩ :: (t₀ ++ (t₁ ++ before)), w, built, ?_, hbreaks⟩
        · obtain ⟨r', hr', ⟨_, rfl, _, hno⟩ | ⟨_, he, _, hsalvage⟩⟩ := goes_recover hrecover
          · exact absurd hg (hno g rfl)
          · cases hr'
            exact ⟨t₃, t₄, t₅, x, b', hooks, o₃, o₄, l₂, l₃, rfl, hsalvage, hafter, hend⟩
        · simp [hsplit]

/-- Nobody is called then but the hooks after the suite. -/
theorem Resumes.closing {o : Except Fault SuiteResult} (h : s.Resumes features t o l') :
    ∀ k ∈ t.calls, k.closes = true := by
  obtain ⟨t₁, t₂, t₃, x, b, hooks, o₁, o₂, l₁, l₂, rfl, hsalvage, hafter, hend⟩ := h
  have A : HookActs s _ _ _ := hookActs_calls fun k => k.closes = true
  have h₁ := A.salvage (fun _ _ => List.forall_mem_nil _) (fun _ => trivial) (fun _ => trivial) hsalvage
  have h₂ := A.runHookList (fun _ => rfl) (fun _ _ _ _ => trivial) hafter
  have h₃ : t₃.calls = [] := by
    cases o₂ with
    | error e => rw [hend.1]; rfl
    | ok after =>
      rcases hend with ⟨_, _, rfl, _⟩ | ⟨_, y, b', t₄, rfl, hfinish⟩
      · rfl
      · have hcalls : t₄.calls = [] := (atRest_finish hfinish).1
        exact hcalls
  have hcalls : Trace.calls (t₁ ++ ⟨.aborted, x, b⟩ :: (t₂ ++ t₃)) = t₁.calls ++ t₂.calls := by
    rw [Trace.calls_append, Trace.calls_cons_offstage rfl, Trace.calls_append, h₃, List.append_nil]
  rw [hcalls]
  exact List.forall_mem_append.2 ⟨h₁, h₂⟩

/-- The run comes to a result then, if nothing else is in the way. It says that the run was aborted. -/
theorem Resumes.aborted {o : Except Fault SuiteResult} (h : s.Resumes features t o l')
    (ht : t.Smooth requested) (hf : t.flushed = true) (hr : t.resets = false) :
    ∃ r, o = .ok r ∧ r.aborted = true ∧ ∃ shown, t.calls =
      (s.registry.hooksOf .afterSuite).map (callOf (.suite features (some shown))) := by
  obtain ⟨t₁, t₂, t₃, x, b, hooks, o₁, o₂, l₁, l₂, rfl, hsalvage, hafter, hend⟩ := h
  obtain ⟨h₁, hrest⟩ := Trace.smooth_append.1 ht
  obtain ⟨_, hrest⟩ := Trace.smooth_aborted.1 hrest
  obtain ⟨h₂, h₃⟩ := Trace.smooth_append.1 hrest
  have A : HookActs s s.Cut _ _ := hookActs_cut
  have hkeep : ∀ l r, s.Cut l [] none (l ++ [r]) := fun _ _ _ => rfl
  have hcut₁ : s.executor.CutBy t₁ (errorIn o₁) :=
    A.salvage hkeep (fun _ => trivial) (fun _ => trivial) hsalvage h₁.tame
  have hcut₂ : s.executor.CutBy t₂ (errorIn o₂) :=
    A.runHookList trivial (fun _ _ _ _ => trivial) hafter h₂.tame
  obtain ⟨_, rfl⟩ := hcut₁.ok h₁.taken
  obtain ⟨after, rfl⟩ := hcut₂.ok h₂.taken
  rcases hend with ⟨_, he, _⟩ | ⟨_, y, b', t₄, rfl, hfinish⟩
  · cases he
  obtain ⟨_, h₄⟩ := Trace.smooth_aborted.1 h₃
  have hflushed : Trace.flushed t₄ = true := by
    have hlast : t₄.Sublist (⟨.aborted, x, b⟩ :: (t₂ ++ ⟨.aborted, y, b'⟩ :: t₄)) :=
      ((List.sublist_cons_self _ t₄).trans (List.sublist_append_right t₂ _)).trans
        (List.sublist_cons_self _ _)
    exact Trace.flushed_of_sublist (hlast.trans (List.sublist_append_right t₁ _)) hf
  have hnone := spared_finish hfinish h₄.tame hflushed (Trace.loopInterrupted_of_taken h₄.taken)
  cases o with
  | error e => cases hnone
  | ok r =>
    obtain ⟨rfl, hcalls₄, _⟩ := goes_finish hfinish
    have hcalls₁ : Trace.calls t₁ = [] :=
      (hookActs_atRest.salvage (fun _ _ => ⟨rfl, rfl⟩) (fun _ => rfl) (fun _ => rfl) hsalvage).1
    obtain ⟨n, hcalls₂, _, hn⟩ := goes_runHookList hafter h₂.tame
    rw [List.take_of_length_le
      (hn (fun h hm => by rw [phase_of_mem_hooksOf h hm]; rfl) rfl)] at hcalls₂
    refine ⟨_, rfl, ?_, s.made l₂ hooks x, ?_⟩
    · -- The abort is requested before anything else, so that it is still requested at the end.
      obtain ⟨⟨⟩, b₁, w, rfl, _⟩ := goes_perform_bind_iff.1 hsalvage
      have hheeds := ht.heeds
      rw [List.cons_append, Trace.heeds, Bool.and_eq_true] at hheeds
      obtain rfl : b₁ = true := hheeds.1
      have hr : Trace.resets (w ++ ⟨.aborted, x, b⟩ :: (t₂ ++ ⟨.aborted, y, b'⟩ :: t₄)) = false := hr
      exact Trace.answer_of_heeds hheeds.2 hr (List.mem_append_right _ (List.mem_cons_of_mem _
        (List.mem_append_right _ List.mem_cons_self)))
    · rw [Trace.calls_append, hcalls₁, Trace.calls_cons_offstage rfl, Trace.calls_append,
        Trace.calls_cons_offstage rfl, hcalls₄, hcalls₂, List.nil_append, List.append_nil]

/-- The hooks that are due after a scenario, of which these contexts were there, and those of its feature
were called, each once and in order. -/
def Redeems (s : Suite) (f : Feature) (c : Case) (built : List Instance) (tidy lock : List Hook)
    (t : Trace) : Prop :=
  (∃ shown, List.Forall₂
    (Executor.IsCallOn (s.root.contexts.take built.length) built (.scenario (c.scope (some shown))))
    (t.calls.filter Call.cleansUp) tidy) ∧
  ∃ shown, t.calls.filter Call.endsFeature = lock.map (callOf (.feature f (some shown)))

/-- The hooks among some that have a context to be called on: that of their owner, or the first one if
they have none. -/
def boundTo (s : Suite) (built : List Instance) (hooks : List Hook) : List Hook :=
  hooks.filter fun h => !built.isEmpty && Executor.ownedIn (s.root.contexts.take built.length) h

theorem redeems_iff_of_closing {f : Feature} {c : Case} {built : List Instance} {tidy lock : List Hook}
    (h : ∀ k ∈ t.calls, k.closes = true) :
    s.Redeems f c built tidy lock t ↔ tidy = [] ∧ lock = [] := by
  have htidy : t.calls.filter Call.cleansUp = [] :=
    List.filter_eq_nil_iff.2 fun k hk => Bool.eq_false_iff.1 (Call.other_of_closes (h k hk)).1
  have hlock : t.calls.filter Call.endsFeature = [] :=
    List.filter_eq_nil_iff.2 fun k hk => Bool.eq_false_iff.1 (Call.other_of_closes (h k hk)).2
  rw [Redeems, htidy, hlock]
  constructor
  · rintro ⟨⟨_, hnil⟩, _, hmap⟩
    exact ⟨List.forall₂_nil_left_iff.1 hnil, List.map_eq_nil_iff.1 hmap.symm⟩
  · rintro ⟨rfl, rfl⟩
    exact ⟨⟨c.result .empty .aborted, .nil⟩, featureResult f [] [], rfl⟩

/-- A factory is interrupted. The scenario that it was called for, and its feature, are left as they are:
from then on no hook is called but those after the suite. So the hooks that are due to them are called
exactly when there are none. If nothing else is in the way, the hooks after the suite are all called and the
run comes to a result, which says that it was aborted. -/
theorem redeems_iff_of_rupture {o : Except Fault SuiteResult} (h : (s.run features).Shows t o)
    (hw : s.workers ≤ 1) (ht : t = u ++ m :: v) (hm : m.construction? = some (factory, .error g))
    (hg : g.family = .interrupt) :
    (∃ f ∈ features, ∃ p ∈ f.numbered, ∃ before w built, u ++ [m] = before ++ w ∧
      s.executor.BreaksAt (.named p.1 (some f) (some (f.idOf p.2 p.1))) w built g ∧
      ∀ tidy lock, s.registry.lookup .afterScenario (some (f.effectiveTags p.1)) = .ok tidy →
        s.registry.lookup .afterFeature (some f.tags) = .ok lock →
        (s.Redeems f (.named p.1 (some f) (some (f.idOf p.2 p.1))) built (s.boundTo built tidy) lock v ↔
          s.boundTo built tidy = [] ∧ lock = [])) ∧
    (v.Smooth m.mark → v.flushed = true → ∃ r, o = .ok r ∧ r.aborted = true ∧ ∃ shown,
      v.calls = (s.registry.hooksOf .afterSuite).map (callOf (.suite features (some shown)))) := by
  obtain ⟨l', hrun⟩ := shows_run_iff.1 h
  obtain ⟨hresumes, f, hf, p, hp, before, w, built, hsplit, hbreaks⟩ :=
    ruptures_runAll hrun hw ht hm hg
  refine ⟨⟨f, hf, p, hp, before, w, built, hsplit, hbreaks, fun _ _ _ _ =>
    redeems_iff_of_closing hresumes.closing⟩, fun hv hflushed => hresumes.aborted hv hflushed ?_⟩
  -- Only the run itself resets the signal, and it does so first of all.
  have A : SuiteActs s features (fun _ t _ _ => t.filterMap Moment.reset? = []) _ _ := suiteActs_unreset
  obtain ⟨b, w', hreset, hunreset⟩ := A.runAll (fun _ _ => rfl) hrun
  rw [← Trace.resets_eq_false_iff] at hunreset
  have hrest : ∃ u', w' = u' ++ m :: v := by
    cases u with
    | nil =>
      obtain ⟨rfl, _⟩ := List.cons.inj (hreset.symm.trans ht)
      cases hm
    | cons n u' => exact ⟨u', (List.cons.inj (hreset.symm.trans ht)).2⟩
  obtain ⟨u', rfl⟩ := hrest
  rw [Trace.resets_append, Bool.or_eq_false_iff] at hunreset
  exact (Bool.or_eq_false_iff.1 hunreset.2).2

/-- The hotel is there when its desk is interrupted. It is not tidied, and the feature is not locked. -/
theorem redeems_iff_of_rupture_sample :
    let tidy := [Sample.hook .afterScenario 1 "tidy"]
    let lock := [Sample.hook .afterFeature 2 "lock"]
    let s := { Sample.suite (tidy ++ lock ++ [Sample.hook .afterSuite 3 "close"]) 1 false with
      root := Sample.hotel }
    let w : Surroundings := ⟨fun _ => none, fun _ => none, fun _ => false, fun f =>
      if f.identity = "Desk" then .error (.ofKind "KeyboardInterrupt" "") else .ok ⟨.null, []⟩⟩
    let features := [Sample.feature "bookings"]
    let t := w.showing (s.run features) ⟨0, false⟩
    s.workers = 1 ∧ t.calls.map (·.callable.id) = [3] ∧ (∃ f ∈ features, ∃ p ∈ f.numbered, ∃ built,
      ¬ s.Redeems f (.named p.1 (some f) (some (f.idOf p.2 p.1))) built (s.boundTo built tidy) lock
        (t.drop 6)) ∧
      ∃ r, w.comesTo (s.run features) ⟨0, false⟩ = some (.ok r) ∧ r.aborted = true := by
  intro tidy lock s w features t
  have hat : (t[5]?.bind Moment.construction?).any
      (fun p => (errorIn p.2).any (·.family == .interrupt)) = true := by decide +kernel
  obtain ⟨⟨factory, q⟩, hp, hq⟩ := (Option.any_eq_true ..).1 hat
  obtain ⟨m, hm, hconstruct⟩ := Option.bind_eq_some_iff.1 hp
  obtain ⟨hlt, rfl⟩ := List.getElem?_eq_some_iff.1 hm
  obtain ⟨g, hg, hfamily⟩ := (Option.any_eq_true ..).1 hq
  obtain rfl : q = .error g := by
    cases q <;> cases hg
    rfl
  have hsplit : t = t.take 5 ++ t[5] :: t.drop 6 := by
    rw [List.getElem_cons_drop, List.take_append_drop]
  have hheeds := w.heeds_showing (s.run features) ⟨0, false⟩
  have ht : Trace.Smooth t[5].mark (t.drop 6) := by
    refine ⟨by decide +kernel, by decide +kernel, ?_⟩
    have hall : t.heeds false = true := hheeds
    rw [hsplit, Trace.heeds_append, Bool.and_eq_true, Trace.heeds, Bool.and_eq_true] at hall
    exact hall.2.2
  obtain ⟨o, ho, hshows⟩ := w.exists_shows_showing (p := s.run features) (s := ⟨0, false⟩) (by decide +kernel)
  obtain ⟨⟨f, hf, p, hp, before, z, built, _, _, hiff⟩, hresult⟩ :=
    redeems_iff_of_rupture hshows (Nat.le_refl 1) hsplit hconstruct (eq_of_beq hfamily)
  obtain ⟨r, rfl, haborted, _⟩ := hresult ht
    (Trace.flushed_of_sublist (List.drop_sublist 6 t) (w.flushed_showing _ _))
  refine ⟨rfl, by decide +kernel, ⟨f, hf, p, hp, built, fun hredeems => ?_⟩, r, ho, haborted⟩
  have hnone := (hiff tidy lock (Registry.lookup_of_unfiltered (by decide))
    (Registry.lookup_of_unfiltered (by decide))).1 hredeems
  exact absurd hnone.2 (List.cons_ne_nil _ _)

end Suite
end Rehearsal
