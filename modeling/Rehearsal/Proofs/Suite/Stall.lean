import Rehearsal.Proofs.Suite.Hooks
import Rehearsal.Proofs.Suite.Requests

/-! Where a suite stalls. It waits without end only for a job of a pool that was interrupted, in the loop over
the features. Until then its run goes as one that does not stall, and after that nothing is done any more. -/

namespace Rehearsal
set_option autoImplicit false

namespace Program
variable {α β : Type} {t : Trace}

theorem stalls_bind_iff {p : SuiteRoutine α} {f : α → SuiteRoutine β} :
    Stalls (p >>= f) t ↔ Stalls p t ∨ ∃ u v a, t = u ++ v ∧ Shows p u a ∧ Stalls (f a) v := by
  induction p generalizing t with
  | done a =>
    rw [done_bind]
    constructor
    · exact fun h => .inr ⟨[], t, a, rfl, .done a, h⟩
    · rintro (h | ⟨u, v, b, rfl, hp, hf⟩)
      · cases h
      · obtain ⟨rfl, rfl⟩ := shows_done_iff.1 hp
        exact hf
  | ask q next ih =>
    rw [ask_bind]
    constructor
    · intro h
      cases h with
      | stall => exact .inl .stall
      | single x m h =>
        rcases (ih x).1 h with h | ⟨u, v, a, rfl, hp, hf⟩
        · exact .inl (.single x m h)
        · exact .inr ⟨_ :: u, v, a, rfl, .single x m hp, hf⟩
      | @pool jobs _ ends t₁ _ hj h =>
        rcases (ih ends).1 h with h | ⟨u, v, a, rfl, hp, hf⟩
        · exact .inl (.pool hj h)
        · exact .inr ⟨t₁ ++ u, v, a, (List.append_assoc t₁ u v).symm, .pool hj hp, hf⟩
    · rintro (h | ⟨u, v, a, rfl, hp, hf⟩)
      · cases h with
        | stall => exact .stall
        | single x m h => exact .single x m ((ih x).2 (.inl h))
        | pool hj h => exact .pool hj ((ih _).2 (.inl h))
      · cases hp with
        | @single _ _ w _ x m hp => exact .single x m ((ih x).2 (.inr ⟨w, v, a, rfl, hp, hf⟩))
        | @pool _ _ ends t₁ w _ hj hp =>
          rw [List.append_assoc]
          exact .pool hj ((ih ends).2 (.inr ⟨w, v, a, rfl, hp, hf⟩))

theorem stalls_map_iff {p : SuiteRoutine α} {f : α → β} :
    Stalls (p >>= fun a => .done (f a)) t ↔ Stalls p t := by
  rw [stalls_bind_iff]
  refine or_iff_left ?_
  rintro ⟨_, _, _, _, _, hdone⟩
  cases hdone

/-- Who makes no use of a pool comes to an end. -/
theorem not_stalls_of_asks {p : SuiteRoutine α} {Q : α → Prop}
    (hp : Asks SuiteRequest.unpooled.asks (fun _ => False) SuiteRequest.unpooled.answers Q p) :
    ¬ p.Stalls t := by
  intro h
  induction h with
  | stall =>
    cases hp with
    | stop hr => exact hr
    | ask hr _ => exact hr
  | single x b _ ih =>
    cases hp with
    | stop hr => exact hr
    | ask _ hnext => exact ih (hnext x trivial)
  | pool _ _ _ =>
    cases hp with
    | stop hr => exact hr
    | ask hr _ => exact hr

end Program

namespace Suite
variable {s : Suite} {α β : Type} {l l' : List FeatureResult} {t : Trace} {features : List Feature}
  {f : Feature} {x : Action α}
  {K : List FeatureResult → Trace → Option Fault → List FeatureResult → Prop}

/-- An action comes to wait without end. -/
def Sticks (x : Action α) (l : List FeatureResult) (t : Trace) : Prop := (x.run.run l).Stalls t

theorem stalls_run_iff : (s.run features).Stalls t ↔ Sticks (s.runAll features) [] t :=
  Program.stalls_map_iff

theorem sticks_bind_iff {f : α → Action β} :
    Sticks (x >>= f) l t ↔
      Sticks x l t ∨ ∃ u v a l₁, t = u ++ v ∧ Goes x l u (.ok a) l₁ ∧ Sticks (f a) l₁ v := by
  rw [Sticks, run_bind, Program.stalls_bind_iff]
  refine or_congr_right ?_
  constructor
  · rintro ⟨u, v, ⟨o, l₁⟩, rfl, hx, hf⟩
    cases o with
    | ok a => exact ⟨u, v, a, l₁, rfl, hx, hf⟩
    | error e => cases hf
  · rintro ⟨u, v, a, l₁, rfl, hx, hf⟩
    exact ⟨u, v, (.ok a, l₁), rfl, hx, hf⟩

theorem sticks_observe_bind_iff {f : Except Fault α → Action β} :
    Sticks (Action.observe x >>= f) l t ↔
      Sticks x l t ∨ ∃ u v r l₁, t = u ++ v ∧ Goes x l u r l₁ ∧ Sticks (f r) l₁ v := by
  have hobserve : Sticks (Action.observe x) l t ↔ Sticks x l t := Program.stalls_map_iff
  rw [sticks_bind_iff, hobserve]
  refine or_congr_right ?_
  constructor
  · rintro ⟨u, v, r, l₁, rfl, hx, hf⟩
    obtain ⟨_, hr, hx⟩ := goes_observe_iff.1 hx
    cases hr
    exact ⟨u, v, r, l₁, rfl, hx, hf⟩
  · rintro ⟨u, v, r, l₁, rfl, hx, hf⟩
    exact ⟨u, v, r, l₁, rfl, goes_observe_iff.2 ⟨r, rfl, hx⟩, hf⟩

theorem sticks_modify_bind_iff {g : List FeatureResult → List FeatureResult} {f : PUnit → Action β} :
    Sticks (modify g >>= f) l t ↔ Sticks (f ⟨⟩) (g l) t := by
  have h : (modify g >>= f).run.run l = (f ⟨⟩).run.run (g l) := rfl
  rw [Sticks, h, Sticks]

theorem not_sticks_of_confined (hx : Confined SuiteRequest.unpooled x) : ¬ Sticks x l t :=
  Program.not_stalls_of_asks (hx l)

theorem sticks_collect_iff {r : Except Fault α} :
    Sticks (Action.collect r) l t ↔ t = [] ∧ ∃ e, r = .error e ∧ e.family = .interrupt := by
  cases r with
  | ok a =>
    refine iff_of_false (fun h => ?_) ?_
    · cases h
    · rintro ⟨_, e, he, _⟩
      cases he
  | error e =>
    rw [Action.collect]
    split
    · rename_i he
      rw [Sticks, run_stall]
      constructor
      · intro h
        cases h
        exact ⟨rfl, e, rfl, eq_of_beq he⟩
      · rintro ⟨rfl, _⟩
        exact .stall
    · rename_i he
      refine iff_of_false (fun h => ?_) ?_
      · cases h
      · rintro ⟨_, g, hg, hi⟩
        cases hg
        exact he (beq_iff_eq.2 hi)

theorem sticks_runInPool_iff :
    Sticks (s.runInPool f) l t ↔
      ∃ ends e, Overlap (s.jobs f) ends t ∧ ends.mapM id = .error e ∧ e.family = .interrupt := by
  rw [Sticks, run_runInPool]
  constructor
  · intro h
    cases h with
    | pool hover hcollect =>
      obtain ⟨rfl, e, he, hi⟩ := sticks_collect_iff.1 hcollect
      rw [List.append_nil]
      exact ⟨_, e, hover, he, hi⟩
  · rintro ⟨ends, e, hover, he, hi⟩
    rw [← List.append_nil t]
    exact .pool hover (sticks_collect_iff.2 ⟨rfl, e, he, hi⟩)

/-- An action stalls at the pool of a feature only, and what is seen before stands in a relation. -/
def Strands (s : Suite) (features : List Feature)
    (K : List FeatureResult → Trace → Option Fault → List FeatureResult → Prop) (x : Action α) : Prop :=
  ∀ ⦃l t⦄, Sticks x l t → ∃ u v l₁ f, t = u ++ v ∧ K l u none l₁ ∧ 1 < s.workers ∧ f ∈ features ∧
    Sticks (s.runInPool f) l₁ v

theorem strands_of_confined (hx : Confined SuiteRequest.unpooled x) : s.Strands features K x :=
  fun _ _ h => absurd h (not_sticks_of_confined hx)

theorem strands_bind (hK : Sequential K) {f : α → Action β} (hx : Carries K x)
    (hstrands : s.Strands features K x) (hf : ∀ a, s.Strands features K (f a)) :
    s.Strands features K (x >>= f) := by
  intro l t h
  rcases sticks_bind_iff.1 h with h | ⟨u, v, a, l₁, rfl, hgo, h⟩
  · exact hstrands h
  · obtain ⟨w, z, l₂, f, rfl, hw, hrest⟩ := hf a h
    exact ⟨u ++ w, z, l₂, f, (List.append_assoc u w z).symm, hK.trans (hx hgo) hw, hrest⟩

namespace SuiteActs
variable {P : Record → Prop} {C : Scope → Prop} (A : SuiteActs s features K P C)
include A

theorem strands_runScenarios (hf : f ∈ features) : s.Strands features K (s.runScenarios f) := by
  rw [runScenarios]
  split
  · rename_i hw
    exact fun l t h => ⟨[], t, l, f, rfl, A.refl l, hw, hf, h⟩
  · exact strands_of_confined confined_runInOrder

theorem strands_runFeature (hf : f ∈ features) : s.Strands features K (s.runFeature f) := by
  have hseq := A.toSequential
  have hscenarios : ∀ hooks, s.Strands features K
      (if allWell hooks then s.runScenarios f else s.skipScenarios f f.numbered) := by
    intro hooks
    split
    · exact A.strands_runScenarios hf
    · exact strands_of_confined (confined_skipScenarios SuiteRequest.framing_unpooled)
  rw [runFeature_eq]
  refine strands_bind hseq (A.featureHooks hf (.inl rfl)) ?_ fun hooks =>
    strands_bind hseq (A.scenarios hf) (hscenarios hooks) fun scenarios => ?_
  · exact strands_of_confined
      (confined_runHooks SuiteRequest.framing_unpooled trivial fun _ _ => trivial)
  · exact strands_of_confined (confined_afterFeature SuiteRequest.framing_unpooled scenarios hooks
      (fun _ => trivial) fun _ => trivial)

theorem strands_runFeatures {ready : Bool} {fs : List Feature} (hfs : ∀ f ∈ fs, f ∈ features) :
    s.Strands features K (s.runFeatures ready fs) := by
  have hseq := A.toSequential
  have hask : Confined SuiteRequest.unpooled (if ready then Action.aborted else pure true) := by
    split
    · exact confined_perform trivial
    · exact confined_pure _
  induction fs with
  | nil => exact strands_of_confined (confined_pure _)
  | cons f fs ih =>
    obtain ⟨hf, hrest⟩ := List.forall_mem_cons.1 hfs
    have hturn : ∀ skipped : Bool,
        s.Strands features K (if skipped then s.skipFeature f else s.runFeature f) := by
      intro skipped
      split
      · exact strands_of_confined (confined_skipFeature SuiteRequest.framing_unpooled)
      · exact A.strands_runFeature hf
    rw [runFeatures_cons]
    refine strands_bind hseq A.ask (strands_of_confined hask) fun skipped =>
      strands_bind hseq (A.turn hf) (hturn skipped) fun r l t h => ?_
    -- The result of the feature is kept before the loop goes on.
    obtain ⟨u, v, l₁, g, rfl, hu, hpool⟩ := ih hrest (sticks_modify_bind_iff.1 h)
    exact ⟨u, v, l₁, g, rfl, A.trans (A.keep l r) hu, hpool⟩

end SuiteActs

/-- What comes before the loop over the features, where it comes to its end. -/
theorem goes_opening {hooks : List HookResult} (h : Goes (s.opening features) [] t (.ok hooks) l') :
    ∃ b t₀ t₁, t = ⟨.resetAbort, (), b⟩ :: (t₀ ++ t₁) ∧ l' = [] ∧
      Goes (s.greet features) [] t₀ (.ok ()) [] ∧
      Goes (s.runHookList (.suite features none) (s.registry.hooksOf .beforeSuite)) [] t₁ (.ok hooks) [] := by
  obtain ⟨⟨⟩, b, u, rfl, hrest⟩ := goes_perform_bind_iff.1 h
  obtain ⟨t₀, t₁, ⟨⟩, l₁, rfl, hgreet, hhooks⟩ := goes_bind_ok_iff.1 hrest
  obtain ⟨rfl, _⟩ := goes_log hgreet
  obtain rfl : l' = [] := (@loopActs_still s features).suiteHooks trivial (fun _ _ => trivial) hhooks
  exact ⟨b, t₀, t₁, rfl, rfl, hgreet, goes_suiteHooks hhooks⟩

/-- A run that stalls has come to its hooks before the suite and to the pool of a feature, in which a job
ended in an interrupt. -/
theorem exists_pool_of_stalls {P : Record → Prop} {C : Scope → Prop} (A : SuiteActs s features K P C)
    (h : (s.run features).Stalls t) :
    ∃ u v w hooks l f ends e, t = u ++ (v ++ w) ∧ Goes (s.opening features) [] u (.ok hooks) [] ∧
      K [] v none l ∧ 1 < s.workers ∧ f ∈ features ∧ Overlap (s.jobs f) ends w ∧
      ends.mapM id = .error e ∧ e.family = .interrupt := by
  have hopening : Confined SuiteRequest.unpooled (s.opening features) :=
    confined_opening SuiteRequest.framing_unpooled trivial trivial fun _ => trivial
  have hclosing : ∀ hooks outcome, Confined SuiteRequest.unpooled (s.closing features hooks outcome) :=
    fun _ _ => confined_closing SuiteRequest.framing_unpooled (fun _ => trivial) (fun _ => trivial) trivial
      fun _ => trivial
  have hstuck := stalls_run_iff.1 h
  rw [runAll_eq_parts] at hstuck
  rcases sticks_bind_iff.1 hstuck with hstuck | ⟨u, rest, hooks, l₁, rfl, hgo, hstuck⟩
  · exact absurd hstuck (not_sticks_of_confined hopening)
  obtain ⟨_, _, _, _, rfl, _⟩ := goes_opening hgo
  rcases sticks_observe_bind_iff.1 hstuck with hstuck | ⟨_, _, outcome, _, _, _, hstuck⟩
  · obtain ⟨v, w, l, f, rfl, hv, hw, hf, hpool⟩ := A.strands_runFeatures (fun _ => id) hstuck
    obtain ⟨ends, e, hover, he, hi⟩ := sticks_runInPool_iff.1 hpool
    exact ⟨u, v, w, hooks, l, f, ends, e, rfl, hgo, hv, hw, hf, hover, he, hi⟩
  · exact absurd hstuck (not_sticks_of_confined (hclosing hooks outcome))

end Suite
end Rehearsal
