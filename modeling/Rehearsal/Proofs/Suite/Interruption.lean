import Mathlib.Data.List.DropRight
import Rehearsal.Proofs.Scenario.Interruption
import Rehearsal.Proofs.Scenario.Invocation
import Rehearsal.Proofs.Suite.Completeness
import Rehearsal.Proofs.Suite.Hooks

/-! A suite that the sink interrupts, whose features run in order. What has no result by then is skipped,
as if nothing of it had been run. So the results of scenarios that were handed over since the sink took
the result of a feature last are lost: these scenarios are told of once more, and the result of the suite
lists them as not run. -/

namespace Rehearsal
set_option autoImplicit false

/-- The last elements of two lists that satisfy a test are those of the second list, or reach back into
the first. -/
theorem rtakeWhile_append {α : Type} (p : α → Bool) (xs ys : List α) :
    (xs ++ ys).rtakeWhile p = ys.rtakeWhile p ∨
      ys.rtakeWhile p = ys ∧ (xs ++ ys).rtakeWhile p = xs.rtakeWhile p ++ ys := by
  induction ys using List.reverseRecOn with
  | nil => exact .inr ⟨rfl, by simp⟩
  | append_singleton ys a ih =>
    rw [← List.append_assoc]
    by_cases ha : p a = true
    · rw [List.rtakeWhile_concat_pos _ _ _ ha, List.rtakeWhile_concat_pos _ _ _ ha]
      rcases ih with h | ⟨hys, h⟩
      · exact .inl (by rw [h])
      · exact .inr ⟨by rw [hys], by rw [h, List.append_assoc]⟩
    · exact .inl (by rw [List.rtakeWhile_concat_neg _ _ _ ha, List.rtakeWhile_concat_neg _ _ _ ha])

section Since
variable {α β : Type} {g : α → Option β} {xs : List α}

theorem rtakeWhile_isNone_eq_self (h : ∀ x ∈ xs, g x = none) :
    xs.rtakeWhile (fun x => (g x).isNone) = xs :=
  List.rtakeWhile_eq_self_iff.2 fun x hx => by rw [h x hx]; rfl

theorem rtakeWhile_isNone_concat {x : α} (h : (g x).isSome = true) :
    (xs ++ [x]).rtakeWhile (fun x => (g x).isNone) = [] := by
  refine List.rtakeWhile_concat_neg _ _ _ ?_
  rw [Bool.not_eq_true, Option.isNone_eq_false_iff]
  exact h

end Since

/-- The result of a feature that the sink takes. -/
def Moment.settled? : Moment Request.Answer Bool → Option FeatureResult
  | ⟨.emit (.feature r), none, _⟩ => some r
  | _ => none

namespace Trace
variable {t u v : Trace}

/-- What was seen since the sink took the result of a feature last. -/
def recent (t : Trace) : Trace := t.rtakeWhile (·.settled?.isNone)

/-- The trace up to a record that the sink refuses while neither hooks before a scenario nor its steps
are at work. -/
structure Breaks (t u : Trace) : Prop where
  start : u <+: t
  refusal : ∃ v m, u = v ++ [m] ∧ m.isRefused = true
  rests : u.atWork = false

theorem LoopInterrupted.refusedOnce (h : t.LoopInterrupted) : t.RefusedOnce :=
  ⟨h.once, fun r f hr => (h.inLoop r f hr).1⟩

theorem breaks_take {n : Nat} (hm : t[n]?.any Moment.isRefused = true)
    (hrests : Trace.atWork (t.take (n + 1)) = false) : t.Breaks (t.take (n + 1)) := by
  obtain ⟨m, hat, hrefused⟩ := (Option.any_eq_true ..).1 hm
  obtain ⟨hlt, rfl⟩ := List.getElem?_eq_some_iff.1 hat
  exact ⟨List.take_prefix _ t, ⟨t.take n, _, List.take_succ_eq_append_getElem hlt, hrefused⟩, hrests⟩

theorem recent_eq_self (h : t.filterMap Moment.settled? = []) : t.recent = t :=
  rtakeWhile_isNone_eq_self (List.filterMap_eq_nil_iff.1 h)

theorem recent_concat_of_settled {m : Moment Request.Answer Bool} (hm : m.settled?.isSome = true) :
    recent (t ++ [m]) = [] :=
  rtakeWhile_isNone_concat hm

theorem recent_append :
    recent (t ++ u) = u.recent ∨ u.recent = u ∧ recent (t ++ u) = t.recent ++ u :=
  rtakeWhile_append _ t u

theorem filterMap_recent_append {α : Type} {g : Moment Request.Answer Bool → Option α}
    (h : t.recent.filterMap g = []) : (recent (t ++ u)).filterMap g = u.recent.filterMap g := by
  rcases recent_append (t := t) (u := u) with hright | ⟨hu, hboth⟩
  · rw [hright]
  · rw [hboth, List.filterMap_append, h, hu]
    rfl

/-- Neither is the result of a scenario handed over nor a step called. -/
def Uneventful (t : Trace) : Prop := ∀ m ∈ t, m.told? = none ∧ m.stepCall? = none

theorem uneventful_nil : Uneventful [] := List.forall_mem_nil _

theorem Uneventful.append (ht : t.Uneventful) (hu : u.Uneventful) : Uneventful (t ++ u) :=
  List.forall_mem_append.2 ⟨ht, hu⟩

theorem Uneventful.recent (h : t.Uneventful) : t.recent.Uneventful :=
  fun m hm => h m ((List.rtakeWhile_suffix _ t).mem hm)

theorem Uneventful.scenarios (h : t.Uneventful) : t.scenarios = [] := by
  rw [scenarios_eq_filterMap, List.filterMap_eq_nil_iff]
  exact fun m hm => (h m hm).1

theorem Uneventful.stepCalls (h : t.Uneventful) : t.filterMap Moment.stepCall? = [] :=
  List.filterMap_eq_nil_iff.2 fun m hm => (h m hm).2

theorem uneventful_of_silent (hh : t.handed = []) (hc : t.calls = []) : t.Uneventful := by
  rw [handed, List.filterMap_eq_nil_iff] at hh
  rw [calls, List.filterMap_eq_nil_iff] at hc
  intro m hm
  refine ⟨by rw [Moment.told?, hh m hm]; rfl, ?_⟩
  have hcall := hc m hm
  rcases m with ⟨r, x, b⟩
  cases r with
  | call _ _ => cases hcall
  | _ => rfl

theorem uneventful_of_offstage (h : t.offstage = true) : t.Uneventful :=
  uneventful_of_silent (handed_of_offstage h) (calls_of_offstage h)

theorem uneventful_recent_append (ht : t.recent.Uneventful) (hu : u.recent.Uneventful) :
    (recent (t ++ u)).Uneventful := by
  rcases recent_append (t := t) (u := u) with hright | ⟨hself, hboth⟩
  · rwa [hright]
  · rw [hboth]
    exact ht.append (hself ▸ hu)

/-- Nothing happens that is about scenarios, and no refusal breaks anything off. -/
structure Quiet (t : Trace) : Prop where
  uneventful : t.Uneventful
  withstands : t.Withstands none

theorem withstands_of_handed_nil (h : t.handed = []) : t.Withstands none :=
  withstands_of_taken (taken_of_handed_nil h) (handsOnly_of_handed_nil h)

theorem quiet_of_silent (hh : t.handed = []) (hc : t.calls = []) : t.Quiet :=
  ⟨uneventful_of_silent hh hc, withstands_of_handed_nil hh⟩

theorem quiet_of_offstage (h : t.offstage = true) : t.Quiet :=
  quiet_of_silent (handed_of_offstage h) (calls_of_offstage h)

theorem Quiet.append (ht : t.Quiet) (hu : u.Quiet) : Quiet (t ++ u) :=
  ⟨ht.uneventful.append hu.uneventful, ht.withstands.append hu.withstands⟩

theorem scenarios_recent_append (h : t.recent.Uneventful) :
    (recent (t ++ u)).scenarios = u.recent.scenarios := by
  have hnil := h.scenarios
  rw [scenarios_eq_filterMap] at hnil
  rw [scenarios_eq_filterMap, filterMap_recent_append hnil, ← scenarios_eq_filterMap]

theorem Breaks.unique {w : Trace} (hi : t.RefusedOnce) (hu : t.Breaks u) (hw : t.Breaks w) : w = u := by
  obtain ⟨⟨v, hv⟩, ⟨u', m, rfl, hm⟩, _⟩ := hu
  obtain ⟨⟨z, hz⟩, ⟨w', n, rfl, hn⟩, _⟩ := hw
  rw [List.append_assoc, List.singleton_append] at hv hz
  subst hv
  obtain ⟨rfl, rfl⟩ := RefusedOnce.unique hi hm hn hz.symm
  rfl

end Trace

namespace Suite
variable {s : Suite} {l l' : List FeatureResult} {t u v : Trace} {features : List Feature} {f : Feature}
  {rs rs' : List ScenarioResult}

/-- What is refused of the loop over the features while there is no work breaks it off. -/
def Stands (s : Suite) (features : List Feature) (_ : List FeatureResult) (t : Trace)
    (e : Option Fault) (_ : List FeatureResult) : Prop :=
  s.Orderly features → t.tame = true → t.RefusedOnce → t.Withstands e

theorem stands_of_handed_nil {e : Option Fault} (h : t.handed = []) (he : t.tame = true → e = none) :
    s.Stands features l t e l' := by
  intro _ ht _
  rw [he ht]
  exact Trace.withstands_of_handed_nil h

theorem suiteActs_stands (hsink : s.hasSink = true) (hw : s.workers ≤ 1) :
    SuiteActs s features (s.Stands features) (fun r => r.ofRest = true) fun _ => True where
  refl _ := stands_of_handed_nil rfl fun _ => rfl
  trans {_ _ _ t u _} ht hu ho htame hi := by
    rw [Trace.tame_append, Bool.and_eq_true] at htame
    obtain ⟨hit, hiu⟩ := Trace.refusedOnce_of_append hi
    exact (ht ho htame.1 hit).append (hu ho htame.2 hiu)
  aside ht he := stands_of_handed_nil (Trace.handed_of_offstage ht) he
  call callable scope place _ := by
    intro l t o l' h
    obtain ⟨rfl, f, b, u, rfl, hu, _, ho⟩ := goes_invoke h
    refine stands_of_handed_nil (Trace.handed_of_call hu) fun ht => ?_
    rw [ho ht, errorIn_ok]
  emit r hr := by
    intro l t o l' h _ _ _
    have hh := (goes_emit h).2
    exact Executor.withstands_of_cut (Executor.cutBy_of_hands hh) (hh.handsOnly hr)
  admitsRecord r hr := by
    cases r with
    | stage _ => cases hr
    | _ => rfl
  admitsScope _ _ := trivial
  stray hn _ _ ho := absurd ho hn
  scenario f hf p hp := by
    intro l t o l' h ho ht hi
    obtain ⟨x, b, u, rfl, hu⟩ := runs_scenarioJob (goes_job_iff.1 h).2
    rw [Trace.tame_cons, Bool.and_eq_true] at ht
    have hpoll : Trace.Withstands [⟨.aborted, x, b⟩] none := Trace.withstands_of_handed_nil rfl
    refine hpoll.append ?_
    rcases hu with ⟨_, hh, _⟩ | ⟨_, hrun⟩
    · exact Executor.withstands_of_cut (Executor.cutBy_of_hands hh) (hh.handsOnly rfl)
    · exact Executor.withstands_run hrun (ho.executor hf (mem_of_mem_numbered hp) _) hsink ht.2
        (hi.of_sublist (List.sublist_cons_self _ u))
  pool hpool := absurd hpool (Nat.not_lt.2 hw)
  keep _ _ := stands_of_handed_nil rfl fun _ => rfl

/-- Every call of a step comes in the run of a scenario whose result is listed. If no result of a hook
after a step is refused there, the result tells of a step that was not skipped. -/
def Attributed (s : Suite) (features : List Feature) (rs : List ScenarioResult) (t : Trace) : Prop :=
  ∀ u m v, t = u ++ m :: v → m.stepCall?.isSome = true →
    ∃ f ∈ features, ∃ p ∈ f.numbered, ∃ r ∈ rs, ∃ u₁ u₂ v₁ v₂ : Trace, u = u₁ ++ u₂ ∧ v = v₁ ++ v₂ ∧
      (s.executor.run p.1 (some f) (some (f.idOf p.2 p.1))).Runs (u₂ ++ m :: v₁) (.ok r) ∧
      (List.filterMap Moment.refusedReview? (u₂ ++ m :: v₁) = [] →
        ∃ sr ∈ r.steps, sr.status ≠ .skipped)

theorem attributed_of_unseen (h : t.filterMap Moment.stepCall? = []) : s.Attributed features rs t := by
  rintro u m v rfl hm
  rw [List.filterMap_eq_nil_iff] at h
  rw [h m (by simp)] at hm
  cases hm

theorem Attributed.append (ht : s.Attributed features rs t) (hu : s.Attributed features rs' u) :
    s.Attributed features (rs ++ rs') (t ++ u) := by
  intro w m v hsplit hm
  rcases split_append hsplit with ⟨y, rfl, hy⟩ | ⟨y, hy, rfl⟩
  · obtain ⟨f, hf, p, hp, r, hr, u₁, u₂, v₁, v₂, rfl, rfl, hrun⟩ := hu y m v hy hm
    exact ⟨f, hf, p, hp, r, List.mem_append_right _ hr, t ++ u₁, u₂, v₁, v₂,
      (List.append_assoc ..).symm, rfl, hrun⟩
  · obtain ⟨f, hf, p, hp, r, hr, u₁, u₂, v₁, v₂, rfl, rfl, hrun⟩ := ht w m y hy hm
    exact ⟨f, hf, p, hp, r, List.mem_append_left _ hr, u₁, u₂, v₁, v₂ ++ u, rfl,
      List.append_assoc .., hrun⟩

theorem attributed_run {p : Scenario × Nat} {r : ScenarioResult} (hf : f ∈ features)
    (hp : p ∈ f.numbered) (hsink : s.hasSink = true) (ht : t.tame = true)
    (h : (s.executor.run p.1 (some f) (some (f.idOf p.2 p.1))).Runs t (.ok r)) :
    s.Attributed features [r] t := by
  rintro u m v rfl hm
  refine ⟨f, hf, p, hp, r, List.mem_singleton_self r, [], u, v, [], rfl, by simp, h, fun hr => ?_⟩
  exact Executor.exists_unskipped hsink h (Trace.undisturbed_of_tame ht) (by simp) hm hr

/-- What a part of the loop over the features tells, which added some results: the results of scenarios
that it handed over are those of the added results, and those that came since the sink took the result
of a feature last. -/
structure Tells (s : Suite) (features : List Feature) (t : Trace) (e : Option Fault)
    (added : List FeatureResult) : Prop where
  scenarios : t.scenarios = added.flatMap (·.scenarios) ++ t.recent.scenarios
  settled : e = none → t.recent.Uneventful
  attributed : t.recent.filterMap Moment.stepCall? = [] →
    s.Attributed features (added.flatMap (·.scenarios)) t

theorem Tells.append {e : Option Fault} {added more : List FeatureResult}
    (ht : s.Tells features t none added) (hu : s.Tells features u e more) :
    s.Tells features (t ++ u) e (added ++ more) := by
  have hsettled := ht.settled rfl
  refine ⟨?_, fun he => ?_, fun hcalls => ?_⟩
  · rw [Trace.scenarios_append, ht.scenarios, hsettled.scenarios, List.append_nil, hu.scenarios,
      Trace.scenarios_recent_append hsettled, List.flatMap_append, List.append_assoc]
  · exact Trace.uneventful_recent_append hsettled (hu.settled he)
  · rw [Trace.filterMap_recent_append hsettled.stepCalls] at hcalls
    rw [List.flatMap_append]
    exact (ht.attributed hsettled.stepCalls).append (hu.attributed hcalls)

theorem Tells.complete {added : List FeatureResult} (h : s.Tells features t none added) :
    t.scenarios = added.flatMap (·.scenarios) ∧
      s.Attributed features (added.flatMap (·.scenarios)) t := by
  have hsettled := h.settled rfl
  refine ⟨?_, h.attributed hsettled.stepCalls⟩
  rw [h.scenarios, hsettled.scenarios, List.append_nil]

theorem tells_of_uneventful (h : t.Uneventful) : s.Tells features t none [] :=
  ⟨by rw [h.scenarios, h.recent.scenarios]; rfl, fun _ => h.recent,
    fun _ => attributed_of_unseen h.stepCalls⟩

theorem tells_of_unsettled {e : Fault} (h : t.filterMap Moment.settled? = []) :
    s.Tells features t (some e) [] := by
  have hrecent := Trace.recent_eq_self h
  refine ⟨by rw [hrecent]; rfl, nofun, fun hcalls => ?_⟩
  rw [hrecent] at hcalls
  exact attributed_of_unseen hcalls

theorem blind_settled : Executor.Blind Moment.settled? where
  offstage m hm := by
    rcases m with ⟨r, x, b⟩
    cases r with
    | emit _ => cases hm
    | _ => rfl
  record r f b hr := by
    cases r with
    | feature _ => cases hr
    | _ => rfl

theorem hookActs_unsettled : HookActs s (Unseen Moment.settled?)
    (fun r => ∀ (f : Option Fault) b, Moment.settled? ⟨.emit r, f, b⟩ = none) fun _ => True :=
  hookActs_unseen blind_settled.offstage (fun _ f b hr => hr f b) fun _ _ _ _ _ => rfl

theorem unsettled_of_hands {r : Record} {e : Fault} (h : s.executor.Hands r t (some e)) :
    t.filterMap Moment.settled? = [] := by
  cases h with
  | loud _ b _ => cases r <;> rfl

theorem hookActs_uneventful : HookActs s (fun _ t _ _ => t.Uneventful)
    (fun r => r.scenario? = none) fun _ => True where
  refl _ := Trace.uneventful_nil
  trans := Trace.Uneventful.append
  aside ht _ := Trace.uneventful_of_offstage ht
  call callable scope place _ := by
    intro l t o l' h
    obtain ⟨_, f, b, u, rfl, hu, _⟩ := goes_invoke h
    exact List.forall_mem_cons.2 ⟨⟨rfl, rfl⟩, Trace.uneventful_of_offstage hu⟩
  emit r hr := by
    intro l t o l' h
    have hh := (goes_emit h).2
    generalize errorIn o = e at hh
    cases hh with
    | silent _ => exact Trace.uneventful_nil
    | loud e b _ => exact List.forall_mem_singleton.2 ⟨hr, rfl⟩

/-- Only the result of a feature itself settles it, and it comes last. -/
theorem unsettled_runFeature {e : Fault} (hw : s.workers ≤ 1)
    (h : Goes (s.runFeature f) l t (.error e) l') :
    t.filterMap Moment.settled? = [] := by
  have A : HookActs s (Unseen Moment.settled?) _ _ := hookActs_unsettled
  have hjob : ∀ p ∈ f.numbered,
      Carries (Unseen Moment.settled?) (Action.job (s.scenarioJob f p.1 p.2)) := by
    intro p _ l t o l' h
    exact unseen_scenarioJob blind_settled (fun _ _ _ _ _ => rfl) (fun _ _ _ _ => rfl)
      (goes_job_iff.1 h).2
  have hhooks : ∀ phase shown, Carries (Unseen Moment.settled?)
      (s.runHooks phase (.feature f shown)) :=
    fun _ _ => A.runHooks (fun _ _ _ => rfl) trivial fun _ _ _ _ => rfl
  have hscenarios : ∀ ready : Bool, Carries (Unseen Moment.settled?)
      (if ready then s.runScenarios f else s.skipScenarios f f.numbered) := by
    intro ready
    split
    · rw [runScenarios, if_neg (Nat.not_lt.2 hw)]
      exact A.runInOrder hjob
    · exact A.skipScenarios fun _ _ _ => rfl
  rw [runFeature_eq] at h
  rcases goes_bind_iff.1 h with ⟨t₁, u₁, hooks, l₁, rfl, h₁, hk₁⟩ | ⟨e, _, h₁⟩
  swap
  · exact hhooks _ _ h₁
  rcases goes_bind_iff.1 hk₁ with ⟨t₂, u₂, rs, l₂, rfl, h₂, hk₂⟩ | ⟨e, _, h₂⟩
  swap
  · exact A.trans (hhooks _ _ h₁) (hscenarios _ h₂)
  rcases goes_bind_iff.1 hk₂ with ⟨t₃, t₄, after, l₃, rfl, h₃, hk₃⟩ | ⟨e, _, h₃⟩
  swap
  · exact A.trans (hhooks _ _ h₁) (A.trans (hscenarios _ h₂) (hhooks _ _ h₃))
  obtain ⟨o, ho, hemit⟩ := goes_bind_pure_iff.1 hk₃
  cases o with
  | ok _ => cases ho
  | error e =>
    have hrefused : Unseen Moment.settled? l₃ t₄ (some e) l' := unsettled_of_hands (goes_emit hemit).2
    exact A.trans (hhooks _ _ h₁) (A.trans (hscenarios _ h₂) (A.trans (hhooks _ _ h₃) hrefused))

theorem unsettled_skipFeature {e : Fault} (h : Goes (s.skipFeature f) l t (.error e) l') :
    t.filterMap Moment.settled? = [] := by
  have A : HookActs s (Unseen Moment.settled?) _ _ := hookActs_unsettled
  have hskip : Carries (Unseen Moment.settled?) (s.skipScenarios f f.numbered) :=
    A.skipScenarios fun _ _ _ => rfl
  rcases goes_bind_iff.1 h with ⟨u, v, rs, l₁, rfl, hs, hk⟩ | ⟨e, _, hs⟩
  swap
  · exact hskip hs
  obtain ⟨o, ho, hemit⟩ := goes_bind_pure_iff.1 hk
  cases o with
  | ok _ => cases ho
  | error e =>
    have hrefused : Unseen Moment.settled? l₁ v (some e) l' := unsettled_of_hands (goes_emit hemit).2
    exact A.trans (hskip hs) hrefused

section InOrder
variable (hsink : s.hasSink = true)
include hsink

theorem emitted_of_hands {r : Record} {e : Option Fault} (h : s.executor.Hands r t e) :
    ∃ b, t = [⟨.emit r, e, b⟩] := by
  cases h with
  | silent hs => cases hsink.symm.trans hs
  | loud _ b _ => exact ⟨b, rfl⟩

theorem tells_scenarioJob {p : Scenario × Nat} {r : ScenarioResult} (hf : f ∈ features)
    (hp : p ∈ f.numbered) (ht : t.tame = true) (h : (s.scenarioJob f p.1 p.2).Runs t (.ok r)) :
    t.scenarios = [r] ∧ s.Attributed features [r] t := by
  obtain ⟨x, b, u, rfl, ⟨_, hh, hr⟩ | ⟨_, hrun⟩⟩ := runs_scenarioJob h
  · obtain rfl := hr r rfl
    obtain ⟨b', rfl⟩ := emitted_of_hands hsink hh
    exact ⟨rfl, attributed_of_unseen rfl⟩
  · rw [Trace.tame_cons, Bool.and_eq_true] at ht
    have hpoll : s.Attributed features [] [⟨.aborted, x, b⟩] := attributed_of_unseen rfl
    have hscenarios : Trace.scenarios u = [r] := Executor.scenarios_run hrun hsink
    exact ⟨hscenarios, hpoll.append (attributed_run hf hp hsink ht.2 hrun)⟩

theorem tells_runInOrder {ps : List (Scenario × Nat)} (hf : f ∈ features)
    (hps : ∀ p ∈ ps, p ∈ f.numbered) (ht : t.tame = true)
    (h : Goes (s.runInOrder f ps) l t (.ok rs) l') :
    t.scenarios = rs ∧ s.Attributed features rs t := by
  induction ps generalizing l t rs with
  | nil =>
    obtain ⟨rfl, hrs, rfl⟩ := goes_pure_iff.1 h
    cases hrs
    exact ⟨rfl, attributed_of_unseen rfl⟩
  | cons p ps ih =>
    obtain ⟨hp, hrest⟩ := List.forall_mem_cons.1 hps
    obtain ⟨u, v, r, l₁, rfl, hjob, hk⟩ := goes_bind_ok_iff.1 h
    obtain ⟨rest, rfl, hgo⟩ := goes_bind_pure_ok_iff.1 hk
    rw [Trace.tame_append, Bool.and_eq_true] at ht
    obtain ⟨hu, hfirst⟩ := tells_scenarioJob hsink hf hp ht.1 (goes_job_iff.1 hjob).2
    obtain ⟨hv, hlater⟩ := ih hrest ht.2 hgo
    refine ⟨?_, hfirst.append hlater⟩
    rw [Trace.scenarios_append, hu, hv]
    rfl

theorem tells_skipScenarios {ps : List (Scenario × Nat)}
    (h : Goes (s.skipScenarios f ps) l t (.ok rs) l') :
    t.scenarios = rs ∧ s.Attributed features rs t := by
  induction ps generalizing l t rs with
  | nil =>
    obtain ⟨rfl, hrs, rfl⟩ := goes_pure_iff.1 h
    cases hrs
    exact ⟨rfl, attributed_of_unseen rfl⟩
  | cons p ps ih =>
    obtain ⟨u, v, _, l₁, rfl, hemit, hk⟩ := goes_bind_ok_iff.1 h
    obtain ⟨rest, rfl, hgo⟩ := goes_bind_pure_ok_iff.1 hk
    obtain ⟨b, rfl⟩ := emitted_of_hands hsink (goes_emit hemit).2
    obtain ⟨hscenarios, hattributed⟩ := ih hgo
    have hfirst : s.Attributed features [notRun f p.1 p.2]
        [⟨.emit (.scenario (notRun f p.1 p.2)), none, b⟩] := attributed_of_unseen rfl
    refine ⟨?_, hfirst.append hattributed⟩
    rw [Trace.scenarios_append, hscenarios]
    rfl

/-- The result of a feature is handed over behind those of its scenarios, and settles them. -/
theorem tells_emit {r : FeatureResult} (hscenarios : t.scenarios = r.scenarios)
    (ht : s.Attributed features r.scenarios t)
    (h : Goes (s.emit (.feature r)) l u (.ok ()) l') : s.Tells features (t ++ u) none [r] := by
  have hh : s.executor.Hands (.feature r) u none := (goes_emit h).2
  obtain ⟨b, rfl⟩ := emitted_of_hands hsink hh
  have hrecent : Trace.recent (t ++ [⟨.emit (.feature r), none, b⟩]) = [] :=
    Trace.recent_concat_of_settled rfl
  have hlast : Trace.Uneventful [⟨.emit (.feature r), none, b⟩] :=
    List.forall_mem_singleton.2 ⟨rfl, rfl⟩
  refine ⟨?_, fun _ => ?_, fun _ => ?_⟩
  · rw [hrecent, Trace.scenarios_append, hscenarios, hlast.scenarios, List.flatMap_singleton]
    rfl
  · rw [hrecent]
    exact Trace.uneventful_nil
  · rw [List.flatMap_singleton, ← List.append_nil r.scenarios]
    exact ht.append (attributed_of_unseen hlast.stepCalls)

theorem tells_skipFeature {r : FeatureResult} (h : Goes (s.skipFeature f) l t (.ok r) l') :
    s.Tells features t none [r] := by
  obtain ⟨_, _, _, _, rfl, rfl, hskip, hemit⟩ := parts_of_skipFeature h
  obtain ⟨hscenarios, hattributed⟩ := tells_skipScenarios hsink hskip
  exact tells_emit hsink hscenarios hattributed hemit

variable (hw : s.workers ≤ 1)
include hw

theorem tells_scenarios {ready : Bool} (hf : f ∈ features) (ht : t.tame = true)
    (h : Goes (if ready then s.runScenarios f else s.skipScenarios f f.numbered) l t (.ok rs) l') :
    t.scenarios = rs ∧ s.Attributed features rs t := by
  split at h
  · rw [runScenarios, if_neg (Nat.not_lt.2 hw)] at h
    exact tells_runInOrder hsink hf (fun _ => id) ht h
  · exact tells_skipScenarios hsink h

theorem tells_runFeature {r : FeatureResult} (hf : f ∈ features) (ht : t.tame = true)
    (h : Goes (s.runFeature f) l t (.ok r) l') : s.Tells features t none [r] := by
  obtain ⟨hooks, rs, after, l₁, l₂, l₃, t₁, t₂, t₃, t₄, rfl, rfl, h₁, h₂, h₃, h₄⟩ :=
    parts_of_runFeature h
  simp only [Trace.tame_append, Bool.and_eq_true] at ht
  obtain ⟨hscenarios, hattributed⟩ := tells_scenarios hsink hw hf ht.2.1 h₂
  have A : HookActs s (fun _ u _ _ => Trace.Uneventful u) _ _ := hookActs_uneventful
  have hhooks : ∀ {phase shown l u o l'}, Goes (s.runHooks phase (.feature f shown)) l u o l' →
      Trace.Uneventful u :=
    fun hgo => A.runHooks (fun _ _ _ => Trace.uneventful_nil) trivial (fun _ _ => rfl) hgo
  have hsplit : t₁ ++ (t₂ ++ (t₃ ++ t₄)) = t₁ ++ ((t₂ ++ t₃) ++ t₄) := by simp
  rw [hsplit]
  refine (tells_of_uneventful (hhooks h₁)).append (tells_emit hsink ?_ ?_ h₄)
  · rw [Trace.scenarios_append, hscenarios, (hhooks h₃).scenarios, List.append_nil]
    rfl
  · have hlast : s.Attributed features [] t₃ := attributed_of_unseen (hhooks h₃).stepCalls
    have hall := hattributed.append hlast
    rwa [List.append_nil] at hall

theorem tells_runFeatures {ready : Bool} {fs : List Feature} {o : Except Fault Unit}
    (hfs : ∀ f ∈ fs, f ∈ features) (ht : t.tame = true)
    (h : Goes (s.runFeatures ready fs) l t o l') :
    ∃ added, l' = l ++ added ∧ s.Tells features t (errorIn o) added := by
  induction fs generalizing l t with
  | nil =>
    obtain ⟨rfl, rfl, rfl⟩ := goes_pure_iff.1 h
    exact ⟨[], (List.append_nil _).symm, tells_of_uneventful Trace.uneventful_nil⟩
  | cons f fs ih =>
    obtain ⟨hf, hrest⟩ := List.forall_mem_cons.1 hfs
    obtain ⟨skipped, u, v, rfl, hoff, hturn⟩ := goes_runFeatures_cons h
    have hpoll : s.Tells features u none [] := tells_of_uneventful (Trace.uneventful_of_offstage hoff)
    rcases hturn with ⟨r, w, z, rfl, hr, hloop⟩ | ⟨e, rfl, rfl, hr⟩
    · simp only [Trace.tame_append, Bool.and_eq_true] at ht
      obtain ⟨added, rfl, hadded⟩ := ih hrest ht.2.2 hloop
      have hturn : s.Tells features w none [r] := by
        split at hr
        · exact tells_skipFeature hsink hr
        · exact tells_runFeature hsink hw hf ht.2.1 hr
      exact ⟨r :: added, by simp, hpoll.append (hturn.append hadded)⟩
    · -- A feature that is cut short adds nothing, and what its scenarios told of stays recent.
      have hcut : v.filterMap Moment.settled? = [] := by
        split at hr
        · exact unsettled_skipFeature hr
        · exact unsettled_runFeature hw hr
      exact ⟨[], (List.append_nil _).symm, hpoll.append (tells_of_unsettled hcut)⟩

theorem tells_salvage (ht : t.tame = true) (h : Goes (s.salvage features) l t (.ok ()) l') :
    ∃ added, l' = l ++ added ∧ s.Tells features t none added := by
  obtain ⟨b, w, z, rfl, hoff, hskip⟩ := goes_salvage h
  simp only [Trace.tame_cons, Trace.tame_append, Bool.and_eq_true] at ht
  obtain ⟨added, rfl, hadded⟩ :=
    tells_runFeatures hsink hw (fun _ hm => List.mem_of_mem_drop hm) ht.2.2 hskip
  have hstart : Trace.Uneventful (⟨.abort (some "interrupted"), (), b⟩ :: w) :=
    List.forall_mem_cons.2 ⟨⟨rfl, rfl⟩, Trace.uneventful_of_offstage hoff⟩
  exact ⟨added, rfl, (tells_of_uneventful hstart).append hadded⟩

theorem quiet_runHookList {scope : Scope} {hs : List Hook} {rs : List HookResult}
    (ho : s.Orderly features) (ht : t.tame = true) (hi : t.RefusedOnce)
    (h : Goes (s.runHookList scope hs) l t (.ok rs) l') : t.Quiet where
  uneventful := hookActs_uneventful.runHookList trivial (fun _ _ _ _ => rfl) h
  withstands :=
    (suiteActs_stands hsink hw).runHookList trivial (fun _ _ _ _ => rfl) h ho ht hi

end InOrder

theorem quiet_finish {r r' : SuiteResult} (h : Goes (s.finish r) l t (.ok r') l') : t.Quiet := by
  obtain ⟨u, w, z, rfl, _, hemit, hhanded, hcalls, hoff⟩ := parts_of_finish h
  have hh : s.executor.Hands (.suite r) u none := (goes_emit hemit).2
  have hu : Trace.Quiet u := by
    refine ⟨hookActs_uneventful.emit _ rfl hemit, ?_⟩
    exact Executor.withstands_of_cut (Executor.cutBy_of_hands hh) (hh.handsOnly rfl)
  exact hu.append ((Trace.quiet_of_silent hhanded hcalls).append (Trace.quiet_of_offstage hoff))

/-- How a run that comes to a result is put together, around the loop over the features and what it is
recovered by. -/
theorem parts_of_result {r : SuiteResult} (h : Goes (s.runAll features) [] t (.ok r) l')
    (ho : s.Orderly features) (hsink : s.hasSink = true) (hw : s.workers ≤ 1) (ht : t.tame = true)
    (hi : t.RefusedOnce) :
    ∃ (t₁ t₂ t₃ t₄ : Trace) (ready : Bool) (o : Except Fault Unit) (l₂ : List FeatureResult),
      t = t₁ ++ (t₂ ++ (t₃ ++ t₄)) ∧ t₁.Quiet ∧ Goes (s.runFeatures ready features) [] t₂ o l₂ ∧
      Goes (s.recover features o) l₂ t₃ (.ok (.ok ())) r.features ∧ t₄.Quiet := by
  obtain ⟨b, t₀, _, rfl, hoff, t₁, rest, o₁, rfl, h₁, hrest⟩ := goes_runAll_parts h (Trace.logged_of_tame ht)
  cases o₁ with
  | error e => cases hrest.2
  | ok hooks =>
    obtain ⟨t₂, t₃, t₄, t₅, x, b', o₂, o₃, l₂, l₃, o₄, rfl, hloop, hrecover, h₄, hend⟩ := hrest
    cases o₄ with
    | error e => cases hend.2
    | ok after =>
      rcases hend with ⟨_, _, _, he⟩ | ⟨rfl, y, b'', t₆, rfl, hfinish⟩
      · cases he
      obtain rfl := (goes_finish hfinish).1
      simp only [Trace.tame_cons, Trace.tame_append, Bool.and_eq_true] at ht
      obtain ⟨_, _, ht₁, _, _, _, ht₄, _⟩ := ht
      obtain ⟨_, hi⟩ := Trace.refusedOnce_of_append (hi.of_sublist (List.sublist_cons_self _ _))
      obtain ⟨hi₁, hi⟩ := Trace.refusedOnce_of_append hi
      obtain ⟨_, hi⟩ := Trace.refusedOnce_of_append (Trace.refusedOnce_of_append hi).2
      obtain ⟨hi₄, _⟩ := Trace.refusedOnce_of_append (hi.of_sublist (List.sublist_cons_self _ _))
      have hpoll : ∀ x b, Trace.Quiet [⟨.aborted, x, b⟩] := fun _ _ => Trace.quiet_of_offstage rfl
      have hreset : Trace.Quiet [⟨.resetAbort, (), b⟩] := Trace.quiet_of_silent rfl rfl
      have hclosing := quiet_runHookList hsink hw ho ht₄ hi₄ h₄
      refine ⟨[⟨.resetAbort, (), b⟩] ++ (t₀ ++ t₁), t₂, t₃,
        [⟨.aborted, x, b'⟩] ++ (t₄ ++ ([⟨.aborted, y, b''⟩] ++ t₆)), allWell hooks, o₂, l₂, by simp, ?_,
        hloop, hrecover, (hpoll _ _).append (hclosing.append ((hpoll _ _).append (quiet_finish hfinish)))⟩
      exact hreset.append ((Trace.quiet_of_offstage hoff).append
        (quiet_runHookList hsink hw ho ht₁ hi₁ h₁))

/-- Where the loop is broken off and then recovered from, the results of scenarios since the result of
a feature was taken last are those that the result of the suite does not list. -/
theorem scenarios_eq_iff_of_tells {e : Fault} {done rest : List FeatureResult}
    (hu : s.Tells features u (some e) done) (hv : s.Tells features v none rest) :
    (Trace.scenarios (u ++ v) = (done ++ rest).flatMap (·.scenarios) ↔ u.recent.scenarios = []) ∧
      (u.recent.filterMap Moment.stepCall? = [] →
        s.Attributed features ((done ++ rest).flatMap (·.scenarios)) (u ++ v)) := by
  obtain ⟨hscenarios, hattributed⟩ := hv.complete
  rw [Trace.scenarios_append, hu.scenarios, hscenarios, List.flatMap_append]
  refine ⟨?_, fun hcalls => (hu.attributed hcalls).append hattributed⟩
  rw [List.append_assoc, List.append_cancel_left_eq, List.append_left_eq_self]

/-- Where the sink interrupts a run once at most, the results of scenarios that are handed over are those
that the result of the suite lists, exactly when none was handed over between the result of a feature that
was taken last and the refusal that breaks the loop off. If no step was called in between either, every
call of a step is told of by a result that is listed. -/
theorem scenarios_eq_iff_recent_eq_nil {r : SuiteResult} (h : (s.run features).Shows t (.ok r))
    (ho : s.Orderly features) (hsink : s.hasSink = true) (hw : s.workers ≤ 1) (ht : t.tame = true)
    (hi : t.RefusedOnce) :
    r.features.map FeatureResult.outline = features.map Feature.outline ∧
      (t.scenarios = r.scenarios ↔ ∀ u, t.Breaks u → u.recent.scenarios = []) ∧
      ((∀ u, t.Breaks u → u.recent.filterMap Moment.stepCall? = []) →
        s.Attributed features r.scenarios t) := by
  obtain ⟨l', hrun⟩ := shows_run_iff.1 h
  obtain ⟨t₁, t₂, t₃, t₄, ready, o, l₂, rfl, h₁, hloop, hrecover, h₄⟩ :=
    parts_of_result hrun ho hsink hw ht hi
  refine ⟨outline_of_reports (reports_loop hloop hrecover), ?_⟩
  simp only [Trace.tame_append, Bool.and_eq_true] at ht
  obtain ⟨hi₂, hi₃⟩ := Trace.refusedOnce_of_append (Trace.refusedOnce_of_append hi).2
  have hstands := (suiteActs_stands hsink hw).runFeatures (fun _ => id) hloop ho ht.2.1 hi₂
  obtain ⟨done, hdone, htells⟩ := tells_runFeatures hsink hw (fun _ => id) ht.2.1 hloop
  obtain rfl : l₂ = done := hdone
  have hfirst : s.Tells features (t₁ ++ t₂) (errorIn o) l₂ :=
    (tells_of_uneventful h₁.uneventful).append htells
  have hlast : s.Tells features t₄ none [] := tells_of_uneventful h₄.uneventful
  obtain ⟨o', ho', ⟨rfl, rfl, hr, _⟩ | ⟨f, rfl, _, hsalvage⟩⟩ := goes_recover hrecover
  · -- The loop came to its end: every refusal was contained.
    cases ho'
    have hall : s.Tells features (t₁ ++ (t₂ ++ ([] ++ t₄))) none r.features := by
      have hboth := hfirst.append hlast
      rwa [List.append_nil, List.append_assoc, ← hr] at hboth
    have hwithstands := h₁.withstands.append (hstands.append h₄.withstands)
    have hnone : ∀ u, ¬ Trace.Breaks (t₁ ++ (t₂ ++ ([] ++ t₄))) u := by
      rintro u ⟨⟨v, hv⟩, ⟨w, m, rfl, hm⟩, hrests⟩
      rw [List.append_assoc, List.singleton_append] at hv
      cases hrests.symm.trans (hwithstands.contained rfl w m v hv.symm hm)
    obtain ⟨hscenarios, hattributed⟩ := hall.complete
    exact ⟨iff_of_true hscenarios fun u hu => (hnone u hu).elim, fun _ => hattributed⟩
  · -- The one refusal was the end of the loop, and so it broke the loop off.
    cases ho'
    obtain ⟨rest, hrest, hskipped⟩ := tells_salvage hsink hw ht.2.2.1 hsalvage
    have hbreaks : Trace.Breaks (t₁ ++ (t₂ ++ (t₃ ++ t₄))) (t₁ ++ t₂) := by
      obtain ⟨w, r', b, rfl⟩ := hstands.ends f rfl
      refine ⟨⟨t₃ ++ t₄, by simp⟩, ⟨t₁ ++ w, _, (List.append_assoc ..).symm, rfl⟩, ?_⟩
      exact Trace.atWork_append_eq_false h₁.withstands.rests hstands.rests
    have hafter : s.Tells features (t₃ ++ t₄) none rest := by
      have hboth := hskipped.append hlast
      rwa [List.append_nil] at hboth
    obtain ⟨hiff, hattributed⟩ := scenarios_eq_iff_of_tells hfirst hafter
    rw [← List.append_assoc t₁] at hbreaks hi ⊢
    rw [SuiteResult.scenarios, hrest]
    refine ⟨hiff.trans ⟨fun hnil u hu => ?_, fun hall => hall _ hbreaks⟩, fun hcalls => ?_⟩
    · rwa [Trace.Breaks.unique hi hbreaks hu]
    · exact hattributed (hcalls _ hbreaks)

/-- A hook before a feature fails, its scenario is told of as not run, and the sink interrupts the run as
it takes the result of the feature. -/
theorem scenarios_eq_iff_recent_eq_nil_sample :
    let s := Sample.suite [Sample.hook .beforeFeature 1 "unlock"] 1 false
    let w := Sample.surroundings
      (fun n => if n = 2 then some (.ofKind "KeyboardInterrupt" "") else none)
      fun n => if n = 1 then some (.ofKind "ValueError" "no key") else none
    let features := [Sample.feature "bookings"]
    let t := w.showing (s.run features) ⟨0, false⟩
    s.workers = 1 ∧ s.hasSink = true ∧ t.RefusedOnce ∧
      ∃ r, w.comesTo (s.run features) ⟨0, false⟩ = some (.ok r) ∧ t.scenarios ≠ r.scenarios := by
  intro s w features t
  have hw : w.Tame := by
    refine Sample.tame fun n f hf => ?_
    split at hf
    · cases hf
      decide
    · cases hf
  have hi : t.LoopInterrupted :=
    Trace.loopInterrupted_of_all (by decide +kernel) (by decide +kernel)
  have hends : (w.comesTo (s.run features) ⟨0, false⟩).any (fun o => (errorIn o).isNone) = true := by
    decide +kernel
  obtain ⟨o, hr, hok⟩ := (Option.any_eq_true ..).1 hends
  obtain ⟨r, rfl⟩ : ∃ r, o = .ok r := by
    cases o with
    | ok r => exact ⟨r, rfl⟩
    | error f => cases hok
  have hshows : (s.run features).Shows t (.ok r) := Surroundings.shows_showing hr
  have hbreaks : t.Breaks (t.take 6) := Trace.breaks_take (by decide +kernel) (by decide +kernel)
  have hlost : (Trace.recent (t.take 6)).scenarios.length = 1 := by decide +kernel
  obtain ⟨_, hiff, _⟩ := scenarios_eq_iff_recent_eq_nil hshows (Sample.suite_orderly (by decide)) rfl
    (Nat.le_refl 1) (Surroundings.tame_showing hw _ _) hi.refusedOnce
  refine ⟨rfl, rfl, hi.refusedOnce, r, hr, fun he => ?_⟩
  rw [hiff.1 he _ hbreaks] at hlost
  cases hlost

end Suite
end Rehearsal
