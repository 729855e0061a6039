import Rehearsal.Proofs.Scenario.StepCall

/-! Calls of steps and what the results tell of them. A step is called in its own stage, and its result
tells how the call ended. One case is different: the sink interrupts the run by refusing the result of a
hook after the step. The step has no result yet at that time, and is listed as skipped although it was
called. -/

namespace Rehearsal
set_option autoImplicit false

/-- What is known of the calls of steps, of a number of steps of which the first ones have results: each
call is told of by a result, or its step would be the next one to have a result, and the result of a
hook after it was refused. -/
structure Tallies (size : Nat) (rs : List StepResult) (e : Option StageEvent) (t : Trace) : Prop where
  calls : ∀ i f, (i, f) ∈ t.located Moment.stepCall? e →
    (∃ (n : Nat) (r : StepResult), i = some (n : Int) ∧ rs[n]? = some r ∧
      TellsOf f r.status r.error) ∨
    i = some (rs.length : Int) ∧ rs.length < size ∧ ∃ g, (i, g) ∈ t.located Moment.refusedReview? e
  refusals : ∀ i g, (i, g) ∈ t.located Moment.refusedReview? e → i = some (rs.length : Int)

namespace Tallies
variable {size : Nat} {rs : List StepResult} {e : Option StageEvent} {t u : Trace}

theorem of_unseen (hc : t.filterMap Moment.stepCall? = [])
    (hr : t.filterMap Moment.refusedReview? = []) : Tallies size rs e t where
  calls i f hm := by
    rw [Trace.located_eq_nil hc] at hm
    cases hm
  refusals i g hm := by
    rw [Trace.located_eq_nil hr] at hm
    cases hm

/-- Where nothing is refused the results that follow change nothing of what the first ones tell. -/
theorem append {rs' : List StepResult} (h : Tallies size rs e t) (ht : t.taken = true)
    (hrs : rs <+: rs') (hu : Tallies size rs' (t.stages.getLast?.or e) u) :
    Tallies size rs' e (t ++ u) := by
  have hnil := Trace.located_eq_nil (e := e) (Trace.refusedReview_of_taken ht)
  obtain ⟨more, rfl⟩ := hrs
  constructor
  · intro i f hm
    rw [Trace.located_append, List.mem_append] at hm
    rw [Trace.located_append, hnil, List.nil_append]
    rcases hm with hm | hm
    · rcases h.calls i f hm with ⟨n, r, hi, hr, htells⟩ | ⟨_, _, g, hg⟩
      · have hlt := (List.getElem?_eq_some_iff.1 hr).1
        exact .inl ⟨n, r, hi, (List.getElem?_append_left hlt).trans hr, htells⟩
      · rw [hnil] at hg
        cases hg
    · exact hu.calls i f hm
  · intro i g hm
    rw [Trace.located_append, hnil, List.nil_append] at hm
    exact hu.refusals i g hm

/-- A part in which nothing is seen of calls and refusals counts for nothing. -/
theorem unseen_append (hc : t.filterMap Moment.stepCall? = []) (ht : t.taken = true)
    (hu : Tallies size rs (t.stages.getLast?.or e) u) : Tallies size rs e (t ++ u) :=
  (of_unseen hc (Trace.refusedReview_of_taken ht)).append ht List.prefix_rfl hu

end Tallies

namespace Executor
variable {x : Executor} {c : Case} {l l' : Ledger} {t : Trace}

theorem tallies_of_within {index size : Nat} {rs : List StepResult}
    (h : t.Within (stepEvent c index))
    (hcalls : ∀ f ∈ t.filterMap Moment.stepCall?,
      (∃ r, rs[index]? = some r ∧ TellsOf f r.status r.error) ∨
      rs.length = index ∧ index < size ∧ ∃ g, g ∈ t.filterMap Moment.refusedReview?)
    (hrefusals : ∀ g ∈ t.filterMap Moment.refusedReview?, rs.length = index) :
    Tallies size rs (some (stepEvent c index)) t := by
  have hmem : ∀ {α : Type} {g : Moment Request.Answer Bool → Option α} {i : Option Int} {a : α},
      (i, a) ∈ t.located g (some (stepEvent c index)) ↔ i = some (index : Int) ∧ a ∈ t.filterMap g := by
    intro α g i a
    rw [Trace.located_of_stages_nil h.stages, List.mem_map]
    constructor
    · rintro ⟨b, hb, he⟩
      obtain ⟨rfl, rfl⟩ := Prod.mk.inj he
      exact ⟨rfl, hb⟩
    · rintro ⟨rfl, ha⟩
      exact ⟨a, ha, rfl⟩
  constructor
  · intro i f hm
    obtain ⟨rfl, hf⟩ := hmem.1 hm
    rcases hcalls f hf with ⟨r, hr, htells⟩ | ⟨rfl, hlt, g, hg⟩
    · exact .inl ⟨index, r, rfl, hr, htells⟩
    · exact .inr ⟨rfl, hlt, g, hmem.2 ⟨rfl, hg⟩⟩
  · intro i g hm
    obtain ⟨rfl, hg⟩ := hmem.1 hm
    rw [hrefusals g hg]

theorem index_eq_of_attempt {d : DispatchTable} {index : Nat} {s : Step} {v : Verdict}
    {o : Except Fault Verdict} {u w : Trace} {l₁ l₂ : Ledger} (hd : d.Fit)
    (hindex : l.steps.length = index) (ha : Ends (x.attempt c d index s) l u (.ok v) l₁)
    (hr : Ends (x.review c d index s v) l₁ w o l₂) : l₂.steps.length = index := by
  have hl₁ : l₁.steps = l.steps := keepsSteps_attempt hd ha
  have hl₂ : l₂.steps = l₁.steps := keepsSteps_review hd hr
  rw [hl₂, hl₁, hindex]

/-- A step that has its result was called as the result tells. -/
theorem tallies_of_recordStep {d : DispatchTable} {index size : Nat} {s : Step} {v v' : Verdict}
    {o : Except Fault Unit} {u w z : Trace} {l₁ l₂ : Ledger} (hd : d.Fit)
    (hu : u.undisturbed = true) (hindex : l.steps.length = index)
    (ha : Ends (x.attempt c d index s) l u (.ok v) l₁)
    (hr : Ends (x.review c d index s v) l₁ w (.ok v') l₂)
    (hs : Ends (x.recordStep (stepResult c index s v')) l₂ z o l') :
    Tallies size l'.steps (some (stepEvent c index)) (u ++ (w ++ z)) := by
  have hl' : l'.steps[index]? = some (stepResult c index s v') := by
    rw [(ends_recordStep hs).1, ← index_eq_of_attempt hd hindex ha hr]
    exact List.getElem?_concat_length
  refine tallies_of_within ((within_attempt hd ha).append
    ((within_review hd hr).append (within_recordStep hs))) ?_ ?_
  · intro f hf
    have hw : w.filterMap Moment.stepCall? = [] := stepless_review hd hr
    have hz : z.filterMap Moment.stepCall? = [] := blind_stepCall.silent.recordStep hs
    rw [List.filterMap_append, List.filterMap_append, hw, hz, List.append_nil, List.append_nil] at hf
    rcases calls_attempt hd hu ha f hf with ⟨_, hv, htells⟩ | ⟨_, hg, _⟩
    · exact .inl ⟨_, hl', tellsOf_review (Except.ok.inj hv ▸ htells) hr⟩
    · cases hg
  · intro g hg
    have hu : u.filterMap Moment.refusedReview? = [] := unrefused_attempt hd ha
    have hz : z.filterMap Moment.refusedReview? = [] := blind_refusedReview.silent.recordStep hs
    rw [List.filterMap_append, List.filterMap_append, hu, unrefused_review hd hr, hz] at hg
    cases hg

/-- A step whose hooks are interrupted has no result, as the result of one of them is refused. -/
theorem tallies_of_refusal {d : DispatchTable} {index size : Nat} {s : Step} {v : Verdict} {g : Fault}
    {u w : Trace} {l₁ : Ledger} (hd : d.Fit) (hw : w.undisturbed = true)
    (hg : g.family = .interrupt) (hindex : l.steps.length = index) (hsize : index < size)
    (ha : Ends (x.attempt c d index s) l u (.ok v) l₁)
    (hr : Ends (x.review c d index s v) l₁ w (.error g) l') :
    Tallies size l'.steps (some (stepEvent c index)) (u ++ w) := by
  have hlen := index_eq_of_attempt hd hindex ha hr
  have hrefused : g ∈ w.filterMap Moment.refusedReview? := leftByRefusal_review hd hr hw g rfl hg
  refine tallies_of_within ((within_attempt hd ha).append (within_review hd hr)) ?_ fun _ _ => hlen
  intro f _
  refine .inr ⟨hlen, hsize, g, ?_⟩
  rw [List.filterMap_append]
  exact List.mem_append_right _ hrefused

theorem tallies_runStep {d : DispatchTable} {index size : Nat} {s : Step} {o : Except Fault StepResult}
    (hd : d.Fit) (ht : t.undisturbed = true) (ho : ∀ f, o = .error f → f.family = .interrupt)
    (hindex : l.steps.length = index) (hsize : index < size)
    (h : Ends (x.runStep c d index s) l t o l') :
    Tallies size l'.steps (some (stepEvent c index)) t := by
  rcases ends_bind_iff.1 h with ⟨u, w, v, l₁, rfl, ha, hk⟩ | ⟨g, rfl, ha⟩
  · rw [Trace.undisturbed_append, Bool.and_eq_true] at ht
    rcases ends_bind_iff.1 hk with ⟨w, z, v', l₂, rfl, hr, hk'⟩ | ⟨g, rfl, hr⟩
    · obtain ⟨_, _, hs⟩ := ends_bind_pure_iff.1 hk'
      exact tallies_of_recordStep hd ht.1 hindex ha hr hs
    · exact tallies_of_refusal hd ht.2 (ho g rfl) hindex hsize ha hr
  · -- The hooks before the step are interrupted, and it is not called.
    refine Tallies.of_unseen (List.eq_nil_iff_forall_not_mem.2 fun f hf => ?_) (unrefused_attempt hd ha)
    rcases calls_attempt hd ht ha f hf with ⟨_, hv, _⟩ | ⟨_, hg, hexit⟩
    · cases hv
    · cases hg
      exact nomatch (ho g rfl).symm.trans hexit

/-- As the loop over the steps is left, all calls of steps are told of, but for one whose hooks were
interrupted by the sink. -/
theorem tallies_runSteps {d : DispatchTable} {index size : Nat} {skip : Bool} {ss : List Step}
    {e : Option StageEvent} {o : Except Fault Unit} (hd : d.Fit) (hx : x.emits = true)
    (ht : t.undisturbed = true) (ho : ∀ f, o = .error f → f.family = .interrupt)
    (hindex : l.steps.length = index) (hsize : index + ss.length = size)
    (h : Ends (x.runSteps c d index skip ss) l t o l') : Tallies size l'.steps e t := by
  induction ss generalizing l t index skip e with
  | nil =>
    obtain ⟨rfl, _⟩ := ends_pure_iff.1 h
    exact .of_unseen rfl rfl
  | cons s ss ih =>
    have hsize' : index + 1 + ss.length = size := by rw [← hsize, List.length_cons]; omega
    have hlt : index < size := by omega
    have haside : ∀ {u v : Trace} {stop : Bool}, x.Looks skip l u stop →
        Tallies size l'.steps (u.stages.getLast?.or e) v → Tallies size l'.steps e (u ++ v) := by
      intro u v stop hs hv
      have hu := hs.offstage
      exact Tallies.unseen_append (blind_stepCall.aside hu)
        (Trace.taken_of_handed_nil (Trace.handed_of_offstage hu)) hv
    have hstarted : ∀ {u v w : Trace} {stop : Bool}, x.Looks skip l u stop →
        Ends (x.transition c .runningStep (some (index : Int))) l v (.ok ()) l →
          Tallies size l'.steps (some (stepEvent c index)) w →
            Tallies size l'.steps e (u ++ (v ++ w)) := by
      intro u v w stop hs hstage hw
      have hv : Trace.taken v = true := runActs_taken.running (c := c) _ hstage rfl
      have hstages : Trace.Follows none v [stepEvent c index] := (ends_transition hstage).2.follows hx
      refine haside hs (Tallies.unseen_append (blind_stepCall.silent.transition hstage) hv ?_)
      rw [hstages.1]
      exact hw
    cases ends_runSteps_cons h with
    | skips u v w l₁ hs hr hrest =>
      have hv : Trace.taken v = true := runActs_taken.step (c := c) _ hr rfl
      obtain ⟨rfl, _⟩ := ends_recordStep hr
      simp only [Trace.undisturbed_append, Bool.and_eq_true] at ht
      refine haside hs (Tallies.unseen_append (blind_stepCall.silent.recordStep hr) hv ?_)
      refine ih ht.2.2 ?_ hsize' hrest
      rw [← hindex]
      exact List.length_append
    | skipRefused u v hs hr =>
      apply haside hs
      exact .of_unseen (blind_stepCall.silent.recordStep hr) (blind_refusedReview.silent.recordStep hr)
    | starts u v w z r l₁ hs hstage hr hrest =>
      simp only [Trace.undisturbed_append, Bool.and_eq_true] at ht
      have hok : ∀ f : Fault, Except.ok r = .error f → f.family = .interrupt := fun _ hf => nomatch hf
      have hw := tallies_runStep hd ht.2.2.1 hok hindex hlt hr
      have hlen : l₁.steps.length = index + 1 := by
        rw [(listed_of_runStep hd hr).1, List.length_append, hindex]
        rfl
      obtain ⟨added, hadded, _⟩ := lists_runSteps hd hrest
      exact hstarted hs hstage (hw.append (runActs_taken.runStep hd hr rfl) ⟨added, hadded.symm⟩
        (ih ht.2.2.2 hlen hsize' hrest))
    | startRefused u v hs hstage =>
      apply haside hs
      exact .of_unseen (blind_stepCall.silent.transition hstage)
        (blind_refusedReview.silent.transition hstage)
    | breaks u v w hs hstage hr =>
      simp only [Trace.undisturbed_append, Bool.and_eq_true] at ht
      apply hstarted hs hstage
      exact tallies_runStep hd ht.2.2 (fun g hg => ho g (Except.error.inj hg ▸ rfl)) hindex hlt hr

theorem tallies_proceedThrough {d : DispatchTable} {e : Option StageEvent} {o : Except Fault Unit}
    (hd : d.Fit) (hx : x.emits = true) (ht : t.undisturbed = true)
    (ho : ∀ f, o = .error f → f.family = .interrupt) (hl : l.steps = [])
    (h : Ends (x.proceedThrough c d) l t o l') :
    Tallies c.scenario.steps.length l'.steps e t := by
  have hcalls : Upholds (Unseen Moment.stepCall?)
      (x.runHooks .beforeScenario c d.arena (.scenario (c.scope none)) true) :=
    acts_stepless.runHooks rfl hd.rooted trivial fun _ => rfl
  have hrefusals : Upholds (Unseen Moment.refusedReview?)
      (x.runHooks .beforeScenario c d.arena (.scenario (c.scope none)) true) :=
    acts_unrefused.runHooks rfl hd.rooted nofun fun _ => trivial
  have htaken : Upholds (fun _ t e _ => e = none → Trace.taken t = true)
      (x.runHooks .beforeScenario c d.arena (.scenario (c.scope none)) true) :=
    runActs_taken.runHooks rfl hd.rooted trivial fun _ => trivial
  cases proceedRun_of_ends h with
  | refused t hs =>
    exact .of_unseen (blind_stepCall.silent.transition hs) (blind_refusedReview.silent.transition hs)
  | halted u v hs hr =>
    have hu : Trace.taken u = true := runActs_taken.beforeHooks (c := c) hs rfl
    refine Tallies.unseen_append (blind_stepCall.silent.transition hs) hu ?_
    exact .of_unseen (hcalls hr) (hrefusals hr)
  | @proceeded u v w ready o l₁ l' hs hr hsteps =>
    have hu : Trace.taken u = true := runActs_taken.beforeHooks (c := c) hs rfl
    have hl₁ : l₁.steps = l.steps := keepsSteps_runHooks hd rfl hr
    simp only [Trace.undisturbed_append, Bool.and_eq_true] at ht
    refine Tallies.unseen_append (blind_stepCall.silent.transition hs) hu ?_
    refine Tallies.unseen_append (hcalls hr) (htaken hr rfl) ?_
    exact tallies_runSteps hd hx ht.2.2 ho (by rw [hl₁, hl]; rfl) (Nat.zero_add _) hsteps

/-- What has no result when the run is recovered is skipped. -/
theorem steps_recover {r : Except Fault Unit} (hle : l.steps.length ≤ c.scenario.steps.length)
    (hr : r = .ok () → l.steps.length = c.scenario.steps.length)
    (h : Ends (x.recover c r) l t (.ok (.ok ())) l') :
    (∀ f, r = .error f → f.family = .interrupt) ∧ ∃ more, l'.steps = l.steps ++ more ∧
      (∀ sr ∈ more, sr.status = .skipped) ∧ l'.steps.length = c.scenario.steps.length := by
  obtain ⟨r', hr', ⟨_, rfl, rfl, hno⟩ | ⟨f, rfl, hf, ⟨u, v, l₁, rfl, hi, hs⟩ | ⟨g, hg, _⟩⟩⟩ :=
    ends_recover h
  · obtain rfl := Except.ok.inj hr'
    have hok : ∀ f : Fault, Except.ok () = .error f → f.family = .interrupt := nofun
    exact ⟨hok, [], (List.append_nil _).symm, List.forall_mem_nil _, hr rfl⟩
  · obtain rfl := Except.ok.inj hr'
    obtain ⟨rfl, _⟩ := ends_interrupt hi
    rw [skipRemaining, ends_get_bind_iff] at hs
    obtain ⟨more, hl', ha, hlen⟩ := steps_skipAll hs
    refine ⟨fun g hg => Except.error.inj hg ▸ hf, more, hl', ha.skipped, ?_⟩
    rw [hl', List.length_append, hlen rfl, List.length_drop]
    change l.steps.length + (_ - l.steps.length) = _
    omega
  · rw [hg] at hr'
    cases hr'

/-- On its contexts a scenario comes to a result that tells of every call of a step, but for those of
skipped steps, of which a hook result was refused. -/
theorem tells_runComposed {d : DispatchTable} {e : Option StageEvent} {r : ScenarioResult}
    (hd : d.Fit) (hx : x.emits = true) (ht : t.undisturbed = true) (hl : l.steps = [])
    (h : Ends (x.runComposed c d) l t (.ok r) l') :
    ∀ i f, (i, f) ∈ t.located Moment.stepCall? e →
      ∃ (n : Nat) (sr : StepResult), i = some (n : Int) ∧ r.steps[n]? = some sr ∧
        (sr.status = .skipped ↔ ∃ g, (i, g) ∈ t.located Moment.refusedReview? e) ∧
        (sr.status ≠ .skipped → TellsOf f sr.status sr.error) := by
  obtain ⟨t₁, t₂, t₃, t₄, r₁, l₁, l₂, l₃, rfl, hproceed, hrecover, hclean, hconclude⟩ :=
    parts_of_runComposed h
  rw [Trace.undisturbed_append, Bool.and_eq_true] at ht
  -- Behind the loop no step is called, and no hook runs that comes after a step.
  have hbehind : ∀ {α : Type} {g : Moment Request.Answer Bool → Option α}, Blind g →
      t₃.filterMap g = [] →
        Trace.located g e (t₁ ++ (t₂ ++ (t₃ ++ t₄))) = t₁.located g e := by
    intro α g B h₃
    have h₂ : t₂.filterMap g = [] := B.silent.recover hrecover
    have h₄ : t₄.filterMap g = [] := B.silent.closing.conclude hconclude
    have hrest : List.filterMap g (t₂ ++ (t₃ ++ t₄)) = [] := by
      rw [List.filterMap_append, List.filterMap_append, h₂, h₃, h₄]
      rfl
    rw [Trace.located_append, Trace.located_eq_nil hrest, List.append_nil]
  have hcalls : t₃.filterMap Moment.stepCall? = [] :=
    acts_stepless.cleanUp hd.rooted trivial blind_stepCall.silent.transition (fun _ _ => rfl) hclean
  have hrefusals : t₃.filterMap Moment.refusedReview? = [] :=
    acts_unrefused.cleanUp hd.rooted nofun blind_refusedReview.silent.transition (fun _ _ => trivial) hclean
  rw [hbehind blind_stepCall hcalls, hbehind blind_refusedReview hrefusals]
  obtain ⟨added, hl₁, hlists, hlen⟩ := lists_proceedThrough hd hproceed
  rw [hl, List.nil_append] at hl₁
  obtain ⟨ho, more, hl₂, hskipped, hsize⟩ := steps_recover (hl₁ ▸ hlists.length_le)
    (fun hr => by rw [hl₁, hlen hr]) hrecover
  have htallies := tallies_proceedThrough (e := e) hd hx ht.1 ho hl hproceed
  obtain ⟨stage, rfl, _⟩ := ends_conclude hconclude
  have hsteps : (c.result l₃ stage).steps = l₁.steps ++ more :=
    (steps_cleanUp hd.rooted hclean).trans hl₂
  rw [hsteps]
  intro i f hm
  rcases htallies.calls i f hm with ⟨n, sr, rfl, hsr, htells⟩ | ⟨rfl, hlt, hrefused⟩
  · have hn := (List.getElem?_eq_some_iff.1 hsr).1
    refine ⟨n, sr, rfl, (List.getElem?_append_left hn).trans hsr, ?_, fun _ => htells⟩
    refine iff_of_false htells.1 ?_
    rintro ⟨g, hg⟩
    have hi := Option.some.inj (htallies.refusals _ g hg)
    omega
  · rw [hl₂, List.length_append] at hsize
    cases more with
    | nil => exact absurd hsize (Nat.ne_of_lt hlt)
    | cons sr more =>
      have hskip := hskipped sr List.mem_cons_self
      refine ⟨l₁.steps.length, sr, rfl, ?_, iff_of_true hskip hrefused, fun hno => absurd hskip hno⟩
      rw [List.getElem?_append_right (Nat.le_refl _), Nat.sub_self]
      rfl

/-- Without contexts no step is called. -/
theorem stepless_abandon {cause : Fault} {salvaged : Option Arena} {r : ScenarioResult}
    (ha : ∀ a, salvaged = some a → a.nodes ≠ [])
    (h : Ends (x.abandon c cause salvaged) l t (.ok r) l') : t.filterMap Moment.stepCall? = [] := by
  obtain ⟨u, v, w, z, l₁, l₂, rfl, hu, hskip, hclean, hannounce⟩ := ends_abandon h
  have hv : v.filterMap Moment.stepCall? = [] := blind_stepCall.silent.skipAll hskip
  have hw : w.filterMap Moment.stepCall? = [] :=
    acts_stepless.cleanUpSalvaged ha trivial blind_stepCall.silent.transition (fun _ _ => rfl) hclean
  have hz : z.filterMap Moment.stepCall? = [] := blind_stepCall.silent.closing.announce hannounce
  rw [List.filterMap_append, List.filterMap_append, List.filterMap_append,
    blind_stepCall.aside hu, hv, hw, hz]
  rfl

theorem failed_of_step_failed {scenario : Scenario} {feature : Option Feature} {id : Option String}
    {r : ScenarioResult} (h : (x.run scenario feature id).Runs t (.ok r)) {sr : StepResult}
    (hsr : sr ∈ r.steps) (hf : sr.status = .failed) : r.status = .failed := by
  obtain ⟨l, stage, rfl, _⟩ := exists_ledger_of_run h
  exact Case.failed_of_mem (List.mem_append_right _ (List.mem_map.2 ⟨sr, hsr, hf⟩))

theorem tells_run {scenario : Scenario} {feature : Option Feature} {id : Option String}
    {r : ScenarioResult} (hx : x.emits = true) (h : (x.run scenario feature id).Runs t (.ok r))
    (ht : t.undisturbed = true) :
    ∀ i f, (i, f) ∈ t.stepCalls →
      ∃ (n : Nat) (sr : StepResult), i = some (n : Int) ∧ r.steps[n]? = some sr ∧
        (sr.status = .skipped ↔ ∃ g, (i, g) ∈ t.refusedReviews) ∧
        (sr.status ≠ .skipped → TellsOf f sr.status sr.error) := by
  obtain ⟨l', hc⟩ := runs_run_iff.1 h
  have hstart : ∀ {u v : Trace} {o : Except Fault (Except Broken DispatchTable)} {l₁ : Ledger}
      {α : Type} {g : Moment Request.Answer Bool → Option α}, Blind g →
      Ends (x.setUp (.named scenario feature id)) Ledger.empty u o l₁ →
      Trace.located g none (u ++ v) = v.located g (u.stages.getLast?.or none) := by
    intro u v o l₁ α g B hs
    have hu : u.filterMap g = [] := B.silent.setUp hs
    rw [Trace.located_append, Trace.located_eq_nil hu, List.nil_append]
  intro i f hm
  cases caseRun_of_ends hc with
  | abandoned u v b hs ha hk =>
    rw [Trace.stepCalls, hstart blind_stepCall hs, Trace.located_eq_nil (stepless_abandon ha hk)] at hm
    cases hm
  | composed u v d hs hd hk =>
    rw [Trace.undisturbed_append, Bool.and_eq_true] at ht
    rw [Trace.stepCalls, hstart blind_stepCall hs] at hm
    rw [Trace.refusedReviews, hstart blind_refusedReview hs]
    exact tells_runComposed hd hx ht.2 rfl hk i f hm

/-- Where a step is called and no result of a hook after a step is refused, a step that is not listed as
skipped tells of it. -/
theorem exists_unskipped {scenario : Scenario} {feature : Option Feature} {id : Option String}
    {r : ScenarioResult} (hx : x.emits = true) (h : (x.run scenario feature id).Runs t (.ok r))
    (ht : t.undisturbed = true) {m : Moment Request.Answer Bool} (hm : m ∈ t)
    (hcall : m.stepCall?.isSome = true) (hr : t.filterMap Moment.refusedReview? = []) :
    ∃ sr ∈ r.steps, sr.status ≠ .skipped := by
  obtain ⟨f, hf⟩ := Option.isSome_iff_exists.1 hcall
  obtain ⟨i, hi⟩ := Trace.exists_located hm hf (Moment.announced?_of_stepCall hcall) none
  obtain ⟨n, sr, rfl, hsr, hiff, _⟩ := tells_run hx h ht i f hi
  refine ⟨sr, List.mem_of_getElem? hsr, fun hskipped => ?_⟩
  obtain ⟨g, hg⟩ := hiff.1 hskipped
  rw [Trace.refusedReviews, Trace.located_eq_nil hr] at hg
  cases hg

/-- What a result tells of the steps that were called, by the trace of its run in full. The step is
listed as skipped exactly when the result of a hook after it was refused; else its result tells how the
call ended, and a failure of it is one of the scenario. -/
theorem skipped_iff_refused {scenario : Scenario} {feature : Option Feature} {id : Option String}
    {r : ScenarioResult} (h : (x.run scenario feature id).Runs t (.ok r))
    (ht : t.undisturbed = true) :
    ∃ full : Trace, x.Voiced t full ∧ (x.loud.run scenario feature id).Runs full (.ok r) ∧
      ∀ i f, (i, f) ∈ full.stepCalls →
        ∃ (n : Nat) (sr : StepResult), i = some (n : Int) ∧ r.steps[n]? = some sr ∧
          (sr.status = .skipped ↔ ∃ g, (i, g) ∈ full.refusedReviews) ∧
          (sr.status ≠ .skipped → TellsOf f sr.status sr.error) ∧
          (sr.status = .failed → r.status = .failed) := by
  obtain ⟨full, hvoiced, hrun⟩ := exists_voiced_of_runs h
  refine ⟨full, hvoiced, hrun, fun i f hm => ?_⟩
  have htu := Trace.undisturbed_of_unspoken hvoiced.rest ht
  obtain ⟨n, sr, rfl, hsr, hiff, htells⟩ := tells_run rfl hrun htu i f hm
  exact ⟨n, sr, rfl, hsr, hiff, htells, failed_of_step_failed h (List.mem_of_getElem? hsr)⟩

/-- The first step fails, and the sink interrupts the run as it takes the result of the hook after it:
the step is listed as skipped. -/
theorem skipped_iff_refused_sample :
    let hooks := [Sample.hook .afterStep 1 "tidy"]
    let x := { Sample.executor hooks with registry := ⟨[Sample.definition 2 "free"], hooks, true⟩ }
    let w := Sample.surroundings
      (fun n => if n = 3 then some (.ofKind "KeyboardInterrupt" "") else none)
      fun n => if n = 2 then some (.ofKind "ValueError" "no room") else none
    let t := w.traceOf (x.run Sample.scenario none none)
    (some 0, some (.ofKind "ValueError" "no room")) ∈ t.stepCalls ∧
      ∃ r sr, w.resultOf (x.run Sample.scenario none none) = .ok r ∧ r.steps[0]? = some sr ∧
        sr.status = .skipped := by
  intro hooks x w t
  have hc : compose x.root = _ := compose_leaf ..
  have hseen : (some 0, some (.ofKind "ValueError" "no room")) ∈ t.stepCalls ∧
      (some 0, .ofKind "KeyboardInterrupt" "") ∈ t.refusedReviews ∧ t.undisturbed = true := by
    unfold t Surroundings.traceOf Executor.run Executor.runCase Executor.setUp
    rw [hc]
    decide +kernel
  obtain ⟨hcall, hrefused, ht⟩ := hseen
  obtain ⟨r, hr⟩ : ∃ r, w.resultOf (x.run Sample.scenario none none) = .ok r := by
    refine exists_of_toBool ?_
    unfold Surroundings.resultOf Executor.run Executor.runCase Executor.setUp
    rw [hc]
    decide +kernel
  have hrun : (x.run Sample.scenario none none).Runs t (.ok r) := hr ▸ w.runs_traceOf _
  obtain ⟨full, hvoiced, _, htells⟩ := skipped_iff_refused hrun ht
  obtain rfl := hvoiced.same rfl
  obtain ⟨n, sr, hn, hsr, hiff, _⟩ := htells _ _ hcall
  obtain rfl : n = 0 := by
    have hn := Option.some.inj hn
    omega
  exact ⟨hcall, r, sr, hr, hsr, hiff.2 ⟨_, hrefused⟩⟩

end Executor
end Rehearsal
