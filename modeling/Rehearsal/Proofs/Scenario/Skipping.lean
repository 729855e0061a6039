import Rehearsal.Proofs.Scenario.Interruption
import Rehearsal.Proofs.Scenario.Silence
import Rehearsal.Proofs.Scenario.Turns

/-! What becomes of the steps behind one that failed. They are passed over, or the next of them is
started; the policies and the signal decide. A step that is undefined goes by the policy for undefined
steps, also where it failed in one of its hooks. -/

namespace Rehearsal
set_option autoImplicit false

def Argument.ofStep : Argument → Bool
  | scope (.step _) => true
  | _ => false

/-- Is it a step that is called, or a hook of one? -/
def Call.ofStep (k : Call) : Bool := k.isStep || k.args.any Argument.ofStep

def Moment.stepWork? : Moment Request.Answer Bool → Option Call := callIf? Call.ofStep

/-- No step is started by the record, nor does it tell of one that was. -/
def Record.passesOver : Record → Bool
  | stage e => e.stage != .runningStep
  | step r => r.status == .skipped
  | _ => true

namespace Trace
variable {t u v w : Trace}

/-- No step is started, each result of a step says that it is skipped, and neither a step nor a hook of
one is called. -/
structure PassesOver (t : Trace) : Prop where
  records : t.HandsOnly Record.passesOver
  calls : t.filterMap Moment.stepWork? = []

theorem PassesOver.append (ht : t.PassesOver) (hu : u.PassesOver) : PassesOver (t ++ u) where
  records := ht.records.append hu.records
  calls := by rw [List.filterMap_append, ht.calls, hu.calls, List.append_nil]

theorem PassesOver.of_sublist (ht : t.PassesOver) (hu : u.Sublist t) : u.PassesOver where
  records := ht.records.of_sublist hu
  calls := List.sublist_nil.1 (ht.calls ▸ hu.filterMap _)

theorem passesOver_nil : PassesOver [] := ⟨handsOnly_of_handed_nil rfl, rfl⟩

theorem not_mem_of_passesOver {r : StepResult} {f : Option Fault} {m : Bool}
    (hf : r.status = .failed) (h : t.HandsOnly Record.passesOver) :
    (⟨.emit (.step r), f, m⟩ : Moment Request.Answer Bool) ∉ t := by
  intro hmem
  have hskipped := h (.step r, f) (List.mem_filterMap.2 ⟨_, hmem, rfl⟩)
  rw [Record.passesOver, hf] at hskipped
  cases hskipped

theorem mem_steps_iff {r : StepResult} :
    r ∈ t.steps ↔ ∃ f m, (⟨.emit (.step r), f, m⟩ : Moment Request.Answer Bool) ∈ t := by
  constructor
  · intro hr
    obtain ⟨k, hk, hstep⟩ := List.mem_filterMap.1 hr
    obtain ⟨⟨k, f⟩, hp, rfl⟩ := List.mem_map.1 hk
    obtain ⟨⟨q, y, m⟩, hm, hhanded⟩ := List.mem_filterMap.1 hp
    cases q <;> cases hhanded
    cases k <;> cases hstep
    exact ⟨f, m, hm⟩
  · rintro ⟨f, m, hm⟩
    have hp : (.step r, f) ∈ t.handed := List.mem_filterMap.2 ⟨_, hm, rfl⟩
    exact List.mem_filterMap.2 ⟨.step r, List.mem_map_of_mem hp, rfl⟩

theorem not_mem_of_steps_nil {r : StepResult} {f : Option Fault} {m : Bool} (h : t.steps = []) :
    (⟨.emit (.step r), f, m⟩ : Moment Request.Answer Bool) ∉ t := by
  intro hm
  have hr := mem_steps_iff.2 ⟨f, m, hm⟩
  rw [h] at hr
  cases hr

/-- The result of a step comes with the first one there is, or behind it. -/
theorem split_of_steps_nil {r r' : StepResult} {f f' : Option Fault} {m m' : Bool}
    (h : u ++ ⟨.emit (.step r), f, m⟩ :: v = t ++ ⟨.emit (.step r'), f', m'⟩ :: w) (ht : t.steps = []) :
    (u = t ∧ r = r' ∧ f = f' ∧ m = m' ∧ v = w) ∨
      ∃ u', u = t ++ ⟨.emit (.step r'), f', m'⟩ :: u' ∧ w = u' ++ ⟨.emit (.step r), f, m⟩ :: v := by
  obtain ⟨u', rfl, hu'⟩ := split_of_not_mem_left h.symm (not_mem_of_steps_nil ht)
  cases u' with
  | nil =>
    obtain ⟨hm, rfl⟩ := List.cons.inj hu'
    cases hm
    exact .inl ⟨List.append_nil t, rfl, rfl, rfl, rfl⟩
  | cons n u' =>
    obtain ⟨rfl, rfl⟩ := List.cons.inj hu'
    exact .inr ⟨u', rfl, rfl⟩

end Trace

namespace Executor
variable {x : Executor} {c : Case} {l l' : Ledger} {t u v : Trace} {requested : Bool}

theorem blind_stepWork : Blind Moment.stepWork? := blind_callIf Call.ofStep

theorem passesOver_of_offstage (h : t.offstage = true) : t.PassesOver :=
  ⟨Trace.handsOnly_of_handed_nil (Trace.handed_of_offstage h), blind_stepWork.aside h⟩

theorem passesOver_skipStep {index : Nat} {s : Step} {o : Except Fault Unit}
    (h : Ends (x.skipStep c index s) l t o l') : t.PassesOver :=
  ⟨(ends_recordStep h).2.handsOnly rfl, blind_stepWork.silent.recordStep h⟩

/-- Hooks that are told of a scenario are no hooks of a step. -/
theorem acts_workless : Acts x c (Unseen Moment.stepWork?) (fun args => ∀ k, Call.ofStep ⟨k, args⟩ = false)
    fun _ => True := acts_callIf Call.ofStep

theorem passesOver_of_rest {e : StageEvent} (h : e.stage.isWork = false) :
    Record.passesOver (.stage e) = true := by
  cases hs : e.stage <;> simp_all [Record.passesOver, Stage.isWork]

theorem passesOver_cleanUp {a : Arena} {o : Except Fault Unit} (ha : a.nodes ≠ [])
    (h : Ends (x.cleanUp c a) l t o l') : t.PassesOver where
  records := handsOnly_cleanUp ha (fun _ => rfl) (fun _ => passesOver_of_rest) h
  calls := acts_workless.cleanUp ha trivial blind_stepWork.silent.transition (fun _ _ _ => rfl) h

theorem passesOver_recover {r : Except Fault Unit} {o : Except Fault (Except Fault Unit)}
    (h : Ends (x.recover c r) l t o l') : t.PassesOver where
  records := handsOnly_recover (fun r hr => by simp [Record.passesOver, hr]) h
  calls := blind_stepWork.silent.recover h

theorem passesOver_conclude {o : Except Fault ScenarioResult} (h : Ends (x.conclude c) l t o l') :
    t.PassesOver where
  records := handsOnly_conclude (fun _ => passesOver_of_rest) (fun _ => rfl) h
  calls := blind_stepWork.silent.closing.conclude h

section Loop
variable {d : DispatchTable} {index : Nat} {skip : Bool} {ss : List Step} {o : Except Fault Unit}

/-- Once the rest is skipped, or the scenario is to stop, all further steps are passed over. -/
theorem passesOver_runSteps (hb : t.heeds requested = true)
    (hstop : skip = true ∨ x.Stopping l requested = true)
    (h : Ends (x.runSteps c d index skip ss) l t o l') : t.PassesOver := by
  induction ss generalizing l t index requested with
  | nil =>
    obtain ⟨rfl, _⟩ := ends_pure_iff.1 h
    exact Trace.passesOver_nil
  | cons s ss ih =>
    cases ends_runSteps_cons h with
    | skips u v w l₁ hs hr hrest =>
      rw [Trace.heeds_append, Bool.and_eq_true] at hb
      rw [(hs.stop_iff hb.1).2, Trace.heeds_append, Bool.and_eq_true] at hb
      apply (passesOver_of_offstage hs.offstage).append
      apply (passesOver_skipStep hr).append
      have hnoticed := (runActs_noticed (c := c)).step _ hr
      exact ih hb.2.2 (hstop.imp_right (hnoticed.stopping hb.2.1)) hrest
    | skipRefused u v hs hr =>
      exact (passesOver_of_offstage hs.offstage).append (passesOver_skipStep hr)
    | starts u v w z r l₁ hs _ _ _ => exact absurd hstop (hs.goesOn hb)
    | startRefused u v hs _ => exact absurd hstop (hs.goesOn hb)
    | breaks u v w hs _ _ => exact absurd hstop (hs.goesOn hb)

/-- Where the scenario goes on, the next step is started. -/
theorem not_passesOver_runSteps {s : Step} (hx : x.emits = true) (hb : t.heeds requested = true)
    (hgo : x.Stopping l requested = false) (h : Ends (x.runSteps c d index false (s :: ss)) l t o l') :
    ¬ t.PassesOver := by
  have hstarted : ∀ {v : Trace} {f : Option Fault}, x.Hands (.stage (stepEvent c index)) v f →
      v.Sublist t → ¬ t.PassesOver := by
    intro v f hv hsub hpass
    have hstage := (hpass.of_sublist hsub).records _ (by rw [hv.handed hx]; exact List.mem_singleton_self _)
    cases hstage
  have hskipped : ∀ {u v : Trace}, (u ++ v).heeds requested = true → ¬ x.Looks false l u true := by
    intro u v hb hs
    rw [Trace.heeds_append, Bool.and_eq_true] at hb
    exact ((hs.stop_iff hb.1).1.1 rfl).elim nofun fun hyes => nomatch hgo.symm.trans hyes
  cases ends_runSteps_cons h with
  | skips u v w l₁ hs _ _ => exact absurd hs (hskipped hb)
  | skipRefused u v hs _ => exact absurd hs (hskipped hb)
  | starts u v w z r l₁ _ hstage _ _ =>
    exact hstarted (ends_transition hstage).2
      ((List.sublist_append_left ..).trans (List.sublist_append_right ..))
  | startRefused u v _ hstage =>
    exact hstarted (ends_transition hstage).2 (List.sublist_append_right ..)
  | breaks u v w _ hstage _ =>
    exact hstarted (ends_transition hstage).2
      ((List.sublist_append_left ..).trans (List.sublist_append_right ..))

end Loop
/-- A step that is run hands over its result last, if it comes to one. -/
theorem ends_runStep {d : DispatchTable} {index : Nat} {s : Step} {o : Except Fault StepResult}
    (hd : d.Fit) (hx : x.emits = true) (h : Ends (x.runStep c d index s) l t o l') :
    (t.steps = [] ∧ ∃ f, o = .error f) ∨ ∃ (u : Trace) (r : StepResult) (f : Option Fault) (m : Bool),
      t = u ++ [⟨.emit (.step r), f, m⟩] ∧ u.steps = [] ∧ r.index = (index : Int) ∧
        errorIn o = f ∧ ∀ r', o = .ok r' → r' = r := by
  have hattempted : ∀ {l l' : Ledger} {t : Trace} {o : Except Fault Verdict},
      Ends (x.attempt c d index s) l t o l' → t.steps = [] := by
    intro l l' t o h
    have hentered : Upholds x.Entered (x.attempt c d index s) :=
      acts_entered.attempt hd trivial (fun _ _ _ => trivial) fun _ _ => trivial
    exact steps_eq_nil_of_entered (hentered h hx) (keepsSteps_attempt hd h)
  have hreviewed : ∀ {v : Verdict} {l l' : Ledger} {t : Trace} {o : Except Fault Verdict},
      Ends (x.review c d index s v) l t o l' → t.steps = [] := by
    intro v l l' t o h
    have hentered : Upholds x.Entered (x.review c d index s v) :=
      acts_entered.review hd trivial fun _ _ => trivial
    exact steps_eq_nil_of_entered (hentered h hx) (keepsSteps_review hd h)
  rcases ends_bind_iff.1 h with ⟨u, v, verdict, l₁, rfl, ha, hk⟩ | ⟨f, rfl, ha⟩
  · rcases ends_bind_iff.1 hk with ⟨v, w, verdict', l₂, rfl, hr, hk'⟩ | ⟨f, rfl, hr⟩
    · obtain ⟨q, rfl, hrecord⟩ := ends_bind_pure_iff.1 hk'
      have hw := (ends_recordStep hrecord).2
      generalize hq : errorIn q = e at hw
      cases hw with
      | silent hn => exact nomatch hn.symm.trans hx
      | loud e m _ =>
        refine .inr ⟨u ++ v, stepResult c index s verdict', e, m, (List.append_assoc ..).symm, ?_, rfl,
          (errorIn_map _ _).trans hq, ?_⟩
        · rw [Trace.steps_append, hattempted ha, hreviewed hr]
          rfl
        · intro r' hr'
          cases q <;> cases hr'
          rfl
    · refine .inl ⟨?_, f, rfl⟩
      rw [Trace.steps_append, hattempted ha, hreviewed hr]
      rfl
  · exact .inl ⟨hattempted ha, f, rfl⟩

/-- The result of a step is that of the step that is run, or comes behind it. -/
theorem split_runStep {d : DispatchTable} {index : Nat} {s : Step} {o : Except Fault StepResult}
    {w z : Trace} {r : StepResult} {f : Option Fault} {m : Bool} (hd : d.Fit) (hx : x.emits = true)
    (h : Ends (x.runStep c d index s) l t o l') (hw : w.steps = [])
    (he : u ++ ⟨.emit (.step r), f, m⟩ :: v = w ++ (t ++ z)) :
    (∃ t', u = w ++ t' ∧ t = t' ++ [⟨.emit (.step r), f, m⟩] ∧ v = z ∧ r.index = (index : Int) ∧
        errorIn o = f ∧ ∀ r', o = .ok r' → r' = r) ∨
      ∃ u', u = (w ++ t) ++ u' ∧ z = u' ++ ⟨.emit (.step r), f, m⟩ :: v := by
  rcases ends_runStep hd hx h with ⟨ht, _⟩ | ⟨t', r', e, b, rfl, ht, hindex, hf, hr'⟩
  · rw [← List.append_assoc] at he
    exact .inr (Trace.split_of_not_mem_left he.symm (Trace.not_mem_of_steps_nil (by simp [hw, ht])))
  · have hassoc : w ++ ((t' ++ [⟨.emit (.step r'), e, b⟩]) ++ z) =
        (w ++ t') ++ ⟨.emit (.step r'), e, b⟩ :: z := by simp
    have hsteps : Trace.steps (w ++ t') = [] := by simp [hw, ht]
    obtain ⟨rfl, rfl, rfl, rfl, rfl⟩ | ⟨u', rfl, rfl⟩ :=
      Trace.split_of_steps_nil (he.trans hassoc) hsteps
    · exact .inl ⟨t', rfl, rfl, rfl, hindex, hf, hr'⟩
    · exact .inr ⟨u', by simp, rfl⟩

section Loop
variable {d : DispatchTable} {index : Nat} {skip : Bool} {ss : List Step} {o : Except Fault Unit}
  {r : StepResult} {f : Option Fault} {m : Bool}

/-- The steps behind one that failed are dropped: its kind of step ends the scenario, the sink refused
its result, there are no more steps, or the scenario is to stop. -/
def DropsRest (x : Executor) (r : StepResult) (refusal : Option Fault) (count : Int)
    (interrupted requested : Bool) : Prop :=
  (r.undefined = true → x.policy.afterUndefined = .skipRest) ∨ refusal ≠ none ∨ r.index + 1 = count ∨
    interrupted = true ∨ x.watches = true ∧ requested = true

theorem ends_eq_true_iff (hp : x.policy.afterFailure = .skipRest) (hf : r.status = .failed) :
    x.ends r = true ↔ (r.undefined = true → x.policy.afterUndefined = .skipRest) := by
  cases hu : r.undefined <;> simp [ends, hu, hf, hp]

/-- What follows on a step that failed is passed over, or the next step is started. -/
theorem passesOver_iff_of_rest (hx : x.emits = true) (hp : x.policy.afterFailure = .skipRest)
    (hf : r.status = .failed) (hb : v.heeds requested = true)
    (h : Ends (x.runSteps c d index (x.ends r) ss) l v o l') :
    v.PassesOver ↔ (r.undefined = true → x.policy.afterUndefined = .skipRest) ∨ ss = [] ∨
      x.Stopping l requested = true := by
  rw [← ends_eq_true_iff hp hf]
  by_cases hends : x.ends r = true
  · exact iff_of_true (passesOver_runSteps hb (.inl hends) h) (.inl hends)
  by_cases hstop : x.Stopping l requested = true
  · exact iff_of_true (passesOver_runSteps hb (.inr hstop) h) (.inr (.inr hstop))
  rw [Bool.not_eq_true] at hends hstop
  cases ss with
  | nil =>
    obtain ⟨rfl, _⟩ := ends_pure_iff.1 h
    exact iff_of_true Trace.passesOver_nil (.inr (.inl rfl))
  | cons s ss =>
    rw [hends] at h
    exact iff_of_false (not_passesOver_runSteps hx hb hstop h) (by simp [hends, hstop])

/-- Where the sink took the result of a step, it is its kind of step, the end of the loop or a stop that
drops the rest. -/
theorem dropsRest_iff {s : Step} {interrupted : Bool} (hindex : r.index = (index : Int))
    (hl : l.interrupted = interrupted) :
    x.DropsRest r none (index + (s :: ss).length : Int) interrupted m ↔
      (r.undefined = true → x.policy.afterUndefined = .skipRest) ∨ ss = [] ∨
        x.Stopping l m = true := by
  have hlast : r.index + 1 = (index : Int) + (s :: ss).length ↔ ss = [] := by
    rw [hindex, ← List.length_eq_zero_iff, List.length_cons]
    omega
  rw [DropsRest, hlast, Stopping, hl]
  simp only [ne_eq, not_true_eq_false, false_or, Bool.or_eq_true, Bool.and_eq_true]

/-- The same of any step of the loop that failed. -/
theorem passesOver_iff_runSteps (hd : d.Fit) (hx : x.emits = true)
    (hp : x.policy.afterFailure = .skipRest) (hf : r.status = .failed)
    (hb : Trace.heeds requested (u ++ ⟨.emit (.step r), f, m⟩ :: v) = true)
    (h : Ends (x.runSteps c d index skip ss) l (u ++ ⟨.emit (.step r), f, m⟩ :: v) o l') :
    v.PassesOver ↔ x.DropsRest r f (index + ss.length : Int) (l.interrupted || u.interrupted) m := by
  induction ss generalizing l u index skip requested with
  | nil => exact absurd (ends_pure_iff.1 h).1 (by simp)
  | cons s ss ih =>
    have hlength : ((index + 1 : Nat) : Int) + ss.length = (index : Int) + (s :: ss).length := by
      rw [List.length_cons]
      omega
    -- What holds of a failed step in the rest of the loop holds of it in the loop.
    have hlater : ∀ {t u' : Trace} {l₁ : Ledger} {skip' : Bool}, Noticed l t none l₁ → u = t ++ u' →
        Ends (x.runSteps c d (index + 1) skip' ss) l₁ (u' ++ ⟨.emit (.step r), f, m⟩ :: v) o l' →
          (v.PassesOver ↔ x.DropsRest r f (index + (s :: ss).length : Int)
            (l.interrupted || u.interrupted) m) := by
      rintro t u' l₁ skip' hnoticed rfl hrest
      rw [List.append_assoc, Trace.heeds_append, Bool.and_eq_true] at hb
      rw [ih hb.2 hrest, hlength, hnoticed.1, Trace.interrupted_append, Bool.or_assoc]
    have hmem : (⟨.emit (.step r), f, m⟩ : Moment Request.Answer Bool) ∈
        u ++ ⟨.emit (.step r), f, m⟩ :: v := by simp
    have A := runActs_noticed (x := x) (c := c)
    generalize ht : u ++ ⟨.emit (.step r), f, m⟩ :: v = t at h hb hmem
    have hskipping : ∀ {t₁ : Trace} {stop : Bool}, x.Looks skip l t₁ stop →
        t₁.PassesOver ∧ Noticed l t₁ none l ∧ t₁.steps = [] := by
      intro t₁ stop hs
      have hoff := hs.offstage
      exact ⟨passesOver_of_offstage hoff, A.offstage hoff fun _ => rfl, Trace.steps_of_offstage hoff⟩
    have hstarting : ∀ {t₁ t₂ : Trace} {stop : Bool} {e : Except Fault Unit} {l₁ : Ledger},
        x.Looks skip l t₁ stop → Ends (x.transition c .runningStep (some index)) l t₂ e l₁ →
          Trace.steps (t₁ ++ t₂) = [] := by
      intro t₁ t₂ stop e l₁ hs hstage
      rw [Trace.steps_append, (hskipping hs).2.2, (ends_transition hstage).2.steps hx]
      rfl
    cases ends_runSteps_cons h with
    | skips t₁ t₂ t₃ l₁ hs hskip hrest =>
      obtain ⟨hpass, hnoticed, _⟩ := hskipping hs
      rw [← List.append_assoc] at ht
      obtain ⟨u', hu, rfl⟩ := Trace.split_of_not_mem_left ht.symm
        (Trace.not_mem_of_passesOver hf (hpass.append (passesOver_skipStep hskip)).records)
      exact hlater (A.trans hnoticed (A.step _ hskip)) hu hrest
    | skipRefused t₁ t₂ hs hskip =>
      have hpass := (hskipping hs).1.append (passesOver_skipStep hskip)
      exact absurd hmem (Trace.not_mem_of_passesOver hf hpass.records)
    | startRefused t₁ t₂ hs hstage =>
      exact absurd hmem (Trace.not_mem_of_steps_nil (hstarting hs hstage))
    | starts t₁ t₂ t₃ t₄ r' l₁ hs hstage hr hrest =>
      have hnoticed := A.trans (hskipping hs).2.1 (A.trans (A.running _ hstage) (A.runStep hd hr))
      obtain ⟨w, rfl, rfl, rfl, hindex, rfl, hr'⟩ | ⟨u', rfl, rfl⟩ :=
        split_runStep hd hx hr (hstarting hs hstage) (ht.trans (List.append_assoc ..).symm)
      · obtain rfl := hr' r' rfl
        have hl₁ : l₁.interrupted = (l.interrupted || Trace.interrupted ((t₁ ++ t₂) ++ w)) := by
          rw [hnoticed.1]
          simp [Moment.isInterrupt, Trace.interrupted]
        rw [← ht, Trace.heeds_append, Bool.and_eq_true] at hb
        have hrestb : v.heeds m = true := (Bool.and_eq_true_iff.1 hb.2).2
        rw [passesOver_iff_of_rest hx hp hf hrestb hrest, errorIn_ok, dropsRest_iff hindex hl₁]
      · exact hlater hnoticed (by simp) hrest
    | breaks t₁ t₂ t₃ hs hstage hr =>
      have hassoc : t₁ ++ (t₂ ++ t₃) = (t₁ ++ t₂) ++ (t₃ ++ []) := by simp
      obtain ⟨w, _, _, rfl, _, rfl, _⟩ | ⟨u', _, hnil⟩ :=
        split_runStep hd hx hr (hstarting hs hstage) (ht.trans hassoc)
      · -- The sink refused the result, so that the loop ends with it.
        exact iff_of_true Trace.passesOver_nil (.inr (.inl fun he => by cases he))
      · simp at hnil

theorem passesOver_append_iff (hu : u.PassesOver) : Trace.PassesOver (t ++ u) ↔ t.PassesOver :=
  ⟨fun h => h.of_sublist (List.sublist_append_left t u), fun h => h.append hu⟩

theorem passesOver_iff_proceedThrough (hd : d.Fit) (hx : x.emits = true)
    (hp : x.policy.afterFailure = .skipRest) (hf : r.status = .failed)
    (hb : Trace.heeds requested (u ++ ⟨.emit (.step r), f, m⟩ :: v) = true)
    (h : Ends (x.proceedThrough c d) l (u ++ ⟨.emit (.step r), f, m⟩ :: v) o l') :
    v.PassesOver ↔ x.DropsRest r f c.scenario.steps.length (l.interrupted || u.interrupted) m := by
  have hmem : (⟨.emit (.step r), f, m⟩ : Moment Request.Answer Bool) ∈
      u ++ ⟨.emit (.step r), f, m⟩ :: v := by simp
  have A := runActs_noticed (x := x) (c := c)
  have hhooks : ∀ {l l' : Ledger} {t : Trace} {o : Except Fault Bool},
      Ends (x.runHooks .beforeScenario c d.arena (.scenario (c.scope none)) true) l t o l' →
        t.HandsOnly Record.passesOver := by
    intro l l' t o h
    exact (acts_handsOnly fun _ => rfl).runHooks rfl hd.rooted trivial (fun _ => trivial) h
  generalize ht : u ++ ⟨.emit (.step r), f, m⟩ :: v = t at h hmem
  have hstaged : ∀ {t : Trace} {o : Except Fault Unit} {l' : Ledger},
      Ends (x.transition c .runningBeforeHooks none) l t o l' → t.HandsOnly Record.passesOver :=
    fun h => (ends_transition h).2.handsOnly rfl
  -- The result is no part of what comes before the steps.
  cases proceedRun_of_ends h with
  | refused t hs => exact absurd hmem (Trace.not_mem_of_passesOver hf (hstaged hs))
  | halted t₁ t₂ hs hh =>
    exact absurd hmem (Trace.not_mem_of_passesOver hf ((hstaged hs).append (hhooks hh)))
  | @proceeded t₁ t₂ t₃ ready _ l₂ _ hs hh hsteps =>
    rw [← List.append_assoc] at ht
    obtain ⟨u', rfl, rfl⟩ := Trace.split_of_not_mem_left ht.symm
      (Trace.not_mem_of_passesOver hf ((hstaged hs).append (hhooks hh)))
    have hnoticed : Noticed l (t₁ ++ t₂) none l₂ := by
      refine A.trans (A.beforeHooks hs) ?_
      exact A.runHooks rfl hd.rooted A.beforeScenario (fun v => A.admitsHook v) hh
    rw [List.append_assoc, Trace.heeds_append, Bool.and_eq_true] at hb
    rw [passesOver_iff_runSteps hd hx hp hf hb.2 hsteps, hnoticed.1, Trace.interrupted_append (t₁ ++ t₂),
      Bool.or_assoc, Int.natCast_zero, Int.zero_add]

/-- The same of any step of a scenario that failed. -/
theorem passesOver_iff_runCase {o : Except Fault ScenarioResult} (hx : x.emits = true)
    (hp : x.policy.afterFailure = .skipRest) (hf : r.status = .failed)
    (hb : Trace.heeds requested (u ++ ⟨.emit (.step r), f, m⟩ :: v) = true)
    (h : Ends (x.runCase c) Ledger.empty (u ++ ⟨.emit (.step r), f, m⟩ :: v) o l') :
    v.PassesOver ↔ x.DropsRest r f c.scenario.steps.length u.interrupted m := by
  have hmem : (⟨.emit (.step r), f, m⟩ : Moment Request.Answer Bool) ∈
      u ++ ⟨.emit (.step r), f, m⟩ :: v := by simp
  have hsetUp : ∀ {l l' : Ledger} {t : Trace} {o : Except Fault (Except Broken DispatchTable)},
      Ends (x.setUp c) l t o l' → t.HandsOnly Record.passesOver :=
    fun h => handsOnly_setUp (fun _ => passesOver_of_rest) h
  generalize ht : u ++ ⟨.emit (.step r), f, m⟩ :: v = t at h hmem
  obtain ⟨t₀, t₁, d, rfl, hs, hd, hk⟩ : ∃ (t₀ t₁ : Trace) (d : DispatchTable), t = t₀ ++ t₁ ∧
      Ends (x.setUp c) Ledger.empty t₀ (.ok (.ok d)) Ledger.empty ∧ d.Fit ∧
      Ends (x.runComposed c d) Ledger.empty t₁ o l' := by
    cases caseRun_of_ends h with
    | refused t hs => exact absurd hmem (Trace.not_mem_of_passesOver hf (hsetUp hs))
    | escaped t hs _ => exact absurd hmem (Trace.not_mem_of_passesOver hf (hsetUp hs))
    | abandoned t₀ t₁ b hs ha hk =>
      refine absurd hmem (Trace.not_mem_of_passesOver hf ((hsetUp hs).append ?_))
      exact handsOnly_abandon ha (fun _ => rfl) (fun r hr => by simp [Record.passesOver, hr])
        (fun _ => passesOver_of_rest) (fun _ => rfl) hk
    | composed t₀ t₁ d hs hd hk => exact ⟨t₀, t₁, d, rfl, hs, hd, hk⟩
  obtain ⟨t₁, t₂, t₃, t₄, r₁, r₂, r₃, l₁, l₂, l₃, rfl, hproceed, hrecover, hclean, hend⟩ :=
    ends_runComposed hk
  have hrest : Trace.PassesOver (t₂ ++ (t₃ ++ t₄)) := by
    refine (passesOver_recover hrecover).append ((passesOver_cleanUp hd.rooted hclean).append ?_)
    rcases hend with ⟨_, _, hconclude⟩ | ⟨rfl, _⟩
    · exact passesOver_conclude hconclude
    · exact Trace.passesOver_nil
  obtain ⟨u', rfl, hsplit⟩ :=
    Trace.split_of_not_mem_left ht.symm (Trace.not_mem_of_passesOver hf (hsetUp hs))
  obtain ⟨v', rfl, rfl⟩ :=
    Trace.split_of_not_mem_right hsplit (Trace.not_mem_of_passesOver hf hrest.records)
  have hstarted : Trace.interrupted t₀ = false := (noticed_setUp hs).1.symm
  have hassoc : (t₀ ++ u') ++ ⟨.emit (.step r), f, m⟩ :: (v' ++ (t₂ ++ (t₃ ++ t₄))) =
      t₀ ++ ((u' ++ ⟨.emit (.step r), f, m⟩ :: v') ++ (t₂ ++ (t₃ ++ t₄))) := by simp
  rw [hassoc, Trace.heeds_append, Trace.heeds_append, Bool.and_eq_true, Bool.and_eq_true] at hb
  rw [passesOver_append_iff hrest, passesOver_iff_proceedThrough hd hx hp hf hb.2.1 hproceed,
    Trace.interrupted_append, hstarted]
  rfl

end Loop

/-- What comes behind each step that failed, in a run that skips the rest after a failure. The rest is
passed over unless the step is undefined, the policy goes on after undefined steps, and nothing else
ends the scenario; then the next step is started, whatever it was that failed. -/
theorem passesOver_iff_of_run {scenario : Scenario} {feature : Option Feature} {id : Option String}
    {o : Except Fault ScenarioResult} (h : (x.run scenario feature id).Runs t o)
    (hp : x.policy.afterFailure = .skipRest) (hb : t.heeds requested = true) :
    ∃ full : Trace, x.Voiced t full ∧ (x.loud.run scenario feature id).Runs full o ∧
      (∀ r, o = .ok r → r.steps = full.steps) ∧
      ∀ (u v : Trace) (sr : StepResult) (f : Option Fault) (m : Bool),
        full = u ++ ⟨.emit (.step sr), f, m⟩ :: v → sr.status = .failed →
          (v.PassesOver ↔ x.DropsRest sr f scenario.steps.length u.interrupted m) := by
  obtain ⟨full, hvoiced, hfull, hheeds⟩ := exists_voiced_heeding requested h
  refine ⟨full, hvoiced, hfull, ?_, ?_⟩
  · rintro r rfl
    exact steps_of_run hfull rfl
  · rintro u v sr f m rfl hf
    obtain ⟨l', hc⟩ := runs_run_iff.1 hfull
    exact passesOver_iff_runCase (x := x.loud) rfl hp hf (hheeds hb) hc

/-- A step that is not known fails in the hook after it, and the next step is started. -/
theorem passesOver_iff_of_run_sample :
    let x := { Sample.executor [Sample.hook .afterStep 1 "tidy"] with
      policy := ⟨.skipRest, .goOn, false, false⟩ }
    let w := Sample.surroundings (fun _ => none)
      fun n => if n = 1 then some (.ofKind "ValueError" "no broom") else none
    let t := w.traceOf (x.run Sample.scenario none none)
    ∃ (u v : Trace) (sr : StepResult), t = u ++ ⟨.emit (.step sr), none, false⟩ :: v ∧
      sr.index = 0 ∧ sr.status = .failed ∧ sr.error.isSome = true ∧ ¬ v.PassesOver := by
  intro x w t
  have hc : compose x.root = _ := compose_leaf ..
  have hseen : (t.calm = true ∧ t.taken = true ∧ t.interrupted = false) ∧
      t.steps.head?.map (fun r => (r.index, r.status, r.undefined, r.error.isSome)) =
        some (0, .failed, true, true) := by
    unfold t Surroundings.traceOf Executor.run Executor.runCase Executor.setUp
    rw [hc]
    decide +kernel
  obtain ⟨⟨hcalm, htaken, hinterrupted⟩, hsteps⟩ := hseen
  obtain ⟨sr, hsr, heq⟩ := Option.map_eq_some_iff.1 hsteps
  simp only [Prod.mk.injEq] at heq
  obtain ⟨hindex, hstatus, hundefined, herror⟩ := heq
  obtain ⟨f, m, hm⟩ := Trace.mem_steps_iff.1 (List.mem_of_mem_head? hsr)
  obtain rfl : f = none :=
    Option.isNone_iff_eq_none.1 (List.all_eq_true.1 htaken (.step sr, f) (List.mem_filterMap.2 ⟨_, hm, rfl⟩))
  obtain rfl : m = false := by simpa using List.all_eq_true.1 hcalm _ hm
  obtain ⟨u, v, he⟩ := List.append_of_mem hm
  refine ⟨u, v, sr, he, hindex, hstatus, herror, ?_⟩
  obtain ⟨full, hvoiced, _, _, hall⟩ :=
    passesOver_iff_of_run (w.runs_traceOf (x.run Sample.scenario none none)) rfl (w.heeds_traceOf _)
  obtain rfl := hvoiced.same rfl
  rw [hall u v sr none false he hstatus]
  have hu : Trace.interrupted u = false := by
    have he : Trace.interrupted (u ++ ⟨.emit (.step sr), none, false⟩ :: v) = false := he ▸ hinterrupted
    rw [Trace.interrupted_append, Bool.or_eq_false_iff] at he
    exact he.1
  simp [DropsRest, hundefined, hu, hindex, x, Sample.scenario]

end Executor
end Rehearsal
