import Rehearsal.Proofs.Scenario.Accounting

/-! What every result of a scenario lists. Whoever handed records over, whatever was called and however
the signal stood: a run that comes to a result has one for each step, in its place. Nothing is asked of
the surroundings here, so that the same holds of scenarios that run beside others. -/

namespace Rehearsal
set_option autoImplicit false

/-- Results for a first part of some steps, each in its place. -/
def Lists (index : Nat) (ss : List Step) (rs : List StepResult) : Prop :=
  rs.map StepResult.place <+: Step.places index ss

namespace Lists
variable {index : Nat} {s : Step} {ss : List Step} {rs more : List StepResult}

theorem nil : Lists index ss [] := List.nil_prefix

theorem cons {r : StepResult} (hr : r.place = ((index : Int), s.text, s.line))
    (h : Lists (index + 1) ss rs) : Lists index (s :: ss) (r :: rs) := by
  rw [Lists, List.map_cons, hr, Step.places, List.prefix_cons_inj]
  exact h

theorem append (h : Lists index ss rs)
    (hm : Lists (index + rs.length) (ss.drop rs.length) more) : Lists index ss (rs ++ more) := by
  have hall := List.prefix_iff_eq_append.1 h
  rw [List.length_map, Step.drop_places] at hall
  rw [Lists, ← hall, List.map_append, List.prefix_append_right_inj]
  exact hm

theorem length_le (h : Lists index ss rs) : rs.length ≤ ss.length := by
  have hle := List.IsPrefix.length_le h
  rwa [List.length_map, Step.length_places] at hle

theorem complete (h : Lists index ss rs) (hlen : rs.length = ss.length) :
    rs.map StepResult.place = Step.places index ss :=
  List.IsPrefix.eq_of_length h (by rw [List.length_map, Step.length_places, hlen])

end Lists

theorem Account.lists {index : Nat} {ss : List Step} {skipped : List StepResult}
    (h : Account index ss [] skipped) : Lists index ss skipped := h.places

namespace Executor
variable {x : Executor} {c : Case} {l l' : Ledger} {t : Trace}

/-- The loop over the steps lists a first part of them, and all of them if it is not cut short. -/
theorem lists_runSteps {d : DispatchTable} {index : Nat} {skip : Bool} {ss : List Step}
    {o : Except Fault Unit} (hd : d.Fit) (h : Ends (x.runSteps c d index skip ss) l t o l') :
    ∃ added, l'.steps = l.steps ++ added ∧ Lists index ss added ∧
      (o = .ok () → added.length = ss.length) := by
  induction ss generalizing l t index skip with
  | nil =>
    obtain ⟨rfl, rfl, rfl⟩ := ends_pure_iff.1 h
    exact ⟨[], by simp, .nil, fun _ => rfl⟩
  | cons s ss ih =>
    -- Both ways a result for the first step is followed by what the loop lists of the others.
    have hfollow : ∀ {r : StepResult} {l₁ : Ledger} {u : Trace} {skip : Bool},
        l₁.steps = l.steps ++ [r] → r.place = ((index : Int), s.text, s.line) →
        Ends (x.runSteps c d (index + 1) skip ss) l₁ u o l' →
          ∃ added, l'.steps = l.steps ++ added ∧ Lists index (s :: ss) added ∧
            (o = .ok () → added.length = (s :: ss).length) := by
      intro r l₁ u skip hl₁ hr hrest
      obtain ⟨added, hl', hlists, hlen⟩ := ih hrest
      refine ⟨r :: added, ?_, hlists.cons hr, fun ho => ?_⟩
      · rw [hl', hl₁, List.append_assoc, List.singleton_append]
      · rw [List.length_cons, hlen ho, List.length_cons]
    cases ends_runSteps_cons h with
    | skips u v w l₁ hs hr hrest =>
      obtain ⟨rfl, _⟩ := ends_recordStep hr
      exact hfollow rfl rfl hrest
    | skipRefused u v hs hr =>
      obtain ⟨rfl, _⟩ := ends_recordStep hr
      exact ⟨[.skipped c.id index s], rfl, Lists.nil.cons rfl, nofun⟩
    | starts u v w z r l₁ hs ht hr hrest =>
      obtain ⟨hl₁, hp, _⟩ := listed_of_runStep hd hr
      exact hfollow hl₁ hp hrest
    | startRefused u v hs ht => exact ⟨[], by simp, .nil, nofun⟩
    | breaks u v w hs ht hr =>
      rcases steps_runStep hd hr with ⟨hl, _⟩ | ⟨r, hl, hp, _⟩
      · exact ⟨[], by simp [hl], .nil, nofun⟩
      · exact ⟨[r], hl, Lists.nil.cons hp, nofun⟩

theorem lists_proceedThrough {d : DispatchTable} {o : Except Fault Unit} (hd : d.Fit)
    (h : Ends (x.proceedThrough c d) l t o l') :
    ∃ added, l'.steps = l.steps ++ added ∧ Lists 0 c.scenario.steps added ∧
      (o = .ok () → added.length = c.scenario.steps.length) := by
  cases proceedRun_of_ends h with
  | refused t hstage => exact ⟨[], by simp, .nil, nofun⟩
  | halted u v hstage hhooks =>
    have hl : l'.steps = l.steps := keepsSteps_runHooks hd rfl hhooks
    exact ⟨[], by simp [hl], .nil, nofun⟩
  | @proceeded u v w ready o l₁ l' hstage hhooks hsteps =>
    have hl₁ : l₁.steps = l.steps := keepsSteps_runHooks hd rfl hhooks
    obtain ⟨added, hl, hlists, hlen⟩ := lists_runSteps hd hsteps
    exact ⟨added, hl₁ ▸ hl, hlists, hlen⟩

/-- What is skipped behind the last step that has a result completes the list. -/
theorem lists_skipRemaining {o : Except Fault Unit} (hl : Lists 0 c.scenario.steps l.steps)
    (h : Ends (x.skipRemaining c) l t o l') :
    Lists 0 c.scenario.steps l'.steps ∧
      (o = .ok () → l'.steps.length = c.scenario.steps.length) := by
  rw [skipRemaining, ends_get_bind_iff] at h
  obtain ⟨more, hl', hm, hlen⟩ := steps_skipAll h
  have hle := hl.length_le
  rw [hl']
  refine ⟨hl.append (by rw [Nat.zero_add]; exact hm.lists), fun ho => ?_⟩
  rw [List.length_append, hlen ho, List.length_drop]
  omega

theorem places_runComposed {d : DispatchTable} {r : ScenarioResult} (hd : d.Fit) (hl : l.steps = [])
    (h : Ends (x.runComposed c d) l t (.ok r) l') :
    ∃ l₁ stage, r = c.result l₁ stage ∧
      l₁.steps.map StepResult.place = Step.places 0 c.scenario.steps := by
  obtain ⟨t₁, t₂, t₃, t₄, r₁, l₁, l₂, l₃, rfl, hproceed, hrecover, hclean, hconclude⟩ :=
    parts_of_runComposed h
  obtain ⟨added, hl₁, hlists, hlen⟩ := lists_proceedThrough hd hproceed
  rw [hl, List.nil_append] at hl₁
  have hl₂ : Lists 0 c.scenario.steps l₂.steps ∧ l₂.steps.length = c.scenario.steps.length := by
    obtain ⟨r', hr, ⟨_, rfl, rfl, _⟩ | ⟨f, _, _, ⟨u, v, l₄, rfl, hint, hskip⟩ | ⟨g, hg, _⟩⟩⟩ :=
      ends_recover hrecover
    · rw [hl₁]
      exact ⟨hlists, hlen (Except.ok.inj hr).symm⟩
    · obtain ⟨rfl, _⟩ := ends_interrupt hint
      have hl₄ : Lists 0 c.scenario.steps (l₁.strike true).steps := hl₁ ▸ hlists
      obtain ⟨hlists, hlen⟩ := lists_skipRemaining hl₄ hskip
      exact ⟨hlists, hlen (Except.ok.inj hr).symm⟩
    · rw [hg] at hr
      cases hr
  rw [← steps_cleanUp hd.rooted hclean] at hl₂
  obtain ⟨stage, rfl, _⟩ := ends_conclude hconclude
  exact ⟨l₃, stage, rfl, hl₂.1.complete hl₂.2⟩

theorem places_abandon {cause : Fault} {salvaged : Option Arena} {r : ScenarioResult}
    (ha : ∀ a, salvaged = some a → a.nodes ≠ []) (hl : l.steps = [])
    (h : Ends (x.abandon c cause salvaged) l t (.ok r) l') :
    ∃ l₁ stage, r = c.result l₁ stage ∧
      l₁.steps.map StepResult.place = Step.places 0 c.scenario.steps := by
  obtain ⟨u, v, w, z, l₁, l₂, rfl, _, hskip, hclean, hannounce⟩ := ends_abandon h
  have hkeep : l₂.steps = l₁.steps := by
    refine acts_keepsSteps.cleanUpSalvaged ha trivial ?_ (fun _ _ => trivial) hclean
    intro l t o l' h
    rw [(ends_transition h).1]
    rfl
  obtain ⟨skipped, hl₁, hlists, hlen⟩ := steps_skipAll hskip
  obtain ⟨_, rfl, _⟩ := ends_announce hannounce
  refine ⟨_, .aborted, rfl, ?_⟩
  rw [hkeep, hl₁, Ledger.noteError, hl, List.nil_append]
  exact hlists.lists.complete (hlen rfl)

/-- The result of a run is made from a ledger in which each step has its place. -/
theorem exists_ledger_of_run {scenario : Scenario} {feature : Option Feature} {id : Option String}
    {r : ScenarioResult} (h : (x.run scenario feature id).Runs t (.ok r)) :
    ∃ l₁ stage, r = Case.result (.named scenario feature id) l₁ stage ∧
      l₁.steps.map StepResult.place = Step.places 0 scenario.steps := by
  obtain ⟨l', hc⟩ := runs_run_iff.1 h
  cases caseRun_of_ends hc with
  | abandoned u v b hs ha hk => exact places_abandon ha rfl hk
  | composed u v d hs hd hk => exact places_runComposed hd rfl hk

/-- Every run that comes to a result names its scenario and lists each step in its place. -/
theorem places_run {scenario : Scenario} {feature : Option Feature} {id : Option String}
    {r : ScenarioResult} (h : (x.run scenario feature id).Runs t (.ok r)) :
    r.name = scenario.name ∧ r.scenarioId = (Case.named scenario feature id).id ∧
      r.steps.map StepResult.place = Step.places 0 scenario.steps := by
  obtain ⟨l₁, stage, rfl, hplaces⟩ := exists_ledger_of_run h
  exact ⟨rfl, rfl, hplaces⟩

end Executor
end Rehearsal
