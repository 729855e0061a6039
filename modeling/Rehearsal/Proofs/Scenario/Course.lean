import Rehearsal.Proofs.Scenario.Accounting

/-! The course of a scenario. Its stages are announced in a fixed order, one for each step that is run,
and what is called and what is handed over belongs to the stage that was announced last. The last
stage tells whether the scenario was to stop. -/

namespace Rehearsal
set_option autoImplicit false

/-- The stage in which hooks of a phase run, if it is one of a scenario. -/
def HookPhase.stage? : HookPhase → Option Stage
  | beforeScenario => some .runningBeforeHooks
  | beforeStep | afterStep => some .runningStep
  | afterScenario => some .runningAfterHooks
  | _ => none

/-- A record belongs to a stage. The result of a step that is run belongs to the stage of that step. -/
def Record.Fits (e : StageEvent) : Record → Prop
  | stage _ => True
  | hook r => r.phase.stage? = some e.stage
  | step r =>
    if r.status = .skipped then e.stage ∈ [.initializing, .runningBeforeHooks, .runningStep]
    else e.stage = .runningStep ∧ e.stepIndex = some r.index
  | scenario r => e.stage = r.stage
  | _ => False

def Argument.Fits (e : StageEvent) : Argument → Prop
  | value _ => True
  | scope (.scenario s) =>
    e.stage = if s.result.isSome then .runningAfterHooks else .runningBeforeHooks
  | scope (.step s) => e.stage = .runningStep ∧ e.stepIndex = some (s.index : Int)
  | scope _ => False

def Argument.isValue : Argument → Bool
  | value _ => true
  | scope _ => false

/-- Is it a call to which no scope is told, which is one of a step? -/
def Call.isStep (k : Call) : Bool := k.args.all Argument.isValue

/-- A call belongs to a stage. What is called without a scope is a step. -/
def Call.Fits (e : StageEvent) (k : Call) : Prop :=
  (∀ a ∈ k.args, a.Fits e) ∧ (k.args.all Argument.isValue = true → e.stage = .runningStep)

namespace Moment

def announced? (m : Moment Request.Answer Bool) : Option StageEvent :=
  m.handed?.bind fun p => p.1.stage?

def Fits (e : StageEvent) : Moment Request.Answer Bool → Prop
  | ⟨.emit r, _, _⟩ => r.Fits e
  | ⟨.call c args, _, _⟩ => Call.Fits e ⟨c, args⟩
  | _ => True

theorem announced?_eq_none_of_offstage {m : Moment Request.Answer Bool} (h : m.isOffstage = true) :
    m.announced? = none := by
  rcases m with ⟨r, x, b⟩
  cases r <;> simp_all [isOffstage, announced?, handed?]

theorem fits_of_offstage {m : Moment Request.Answer Bool} (h : m.isOffstage = true)
    (e : StageEvent) : m.Fits e := by
  rcases m with ⟨r, x, b⟩
  cases r <;> simp_all [isOffstage, Fits]

end Moment

namespace Trace

/-- Every moment belongs to the stage that was announced last before it. -/
def Staged : Option StageEvent → Trace → Prop
  | _, [] => True
  | e, m :: t =>
    match m.announced? with
    | some e' => Staged (some e') t
    | none => (∃ e' ∈ e, m.Fits e') ∧ Staged e t

theorem stages_cons (m : Moment Request.Answer Bool) (t : Trace) :
    stages (m :: t) = m.announced?.toList ++ t.stages := by
  rcases m with ⟨r, x, b⟩
  cases r with
  | emit r => cases r <;> rfl
  | _ => rfl

theorem staged_append (e : Option StageEvent) (t u : Trace) :
    Staged e (t ++ u) ↔ Staged e t ∧ Staged (t.stages.getLast?.or e) u := by
  induction t generalizing e with
  | nil => simp [Staged, stages, records]
  | cons m t ih =>
    rw [List.cons_append, Staged, Staged, stages_cons, List.getLast?_append, Option.or_assoc]
    cases m.announced? with
    | none => simp [ih, and_assoc]
    | some e' =>
      have hlast : (some e').toList.getLast?.or e = some e' := rfl
      rw [hlast]
      exact ih (some e')

def ran (t : Trace) : List StepResult := t.steps.filter (·.status ≠ .skipped)

@[simp] theorem ran_append (t u : Trace) : ran (t ++ u) = t.ran ++ u.ran := by simp [ran]

theorem ran_of_steps_nil {t : Trace} (h : t.steps = []) : t.ran = [] := by
  rw [ran, h]
  rfl

def Within (e : StageEvent) (t : Trace) : Prop := ∀ m ∈ t, m.announced? = none ∧ m.Fits e

variable {e : StageEvent} {t u : Trace}

theorem within_of_offstage (h : t.offstage = true) : t.Within e := by
  intro m hm
  have hoff := List.all_eq_true.1 h m hm
  exact ⟨Moment.announced?_eq_none_of_offstage hoff, Moment.fits_of_offstage hoff e⟩

theorem Within.append (ht : t.Within e) (hu : u.Within e) : Trace.Within e (t ++ u) := by
  intro m hm
  rcases List.mem_append.1 hm with hm | hm
  · exact ht m hm
  · exact hu m hm

theorem Within.stages (h : t.Within e) : t.stages = [] := by
  induction t with
  | nil => rfl
  | cons m t ih =>
    obtain ⟨hm, ht⟩ := List.forall_mem_cons.1 h
    rw [stages_cons, hm.1, ih ht]
    rfl

theorem Within.staged (h : t.Within e) : Staged (some e) t := by
  induction t with
  | nil => trivial
  | cons m t ih =>
    obtain ⟨hm, ht⟩ := List.forall_mem_cons.1 h
    rw [Staged, hm.1]
    exact ⟨⟨e, rfl, hm.2⟩, ih ht⟩

/-- Stages are announced, and each moment belongs to one of them. -/
def Follows (e : Option StageEvent) (t : Trace) (es : List StageEvent) : Prop :=
  t.stages = es ∧ Staged e t

theorem Within.follows (h : t.Within e) : Follows (some e) t [] := ⟨h.stages, h.staged⟩

theorem Follows.append {e : Option StageEvent} {es es' : List StageEvent} (ht : Follows e t es)
    (hu : Follows (es.getLast?.or e) u es') : Follows e (t ++ u) (es ++ es') := by
  refine ⟨by rw [stages_append, ht.1, hu.1], ?_⟩
  rw [staged_append, ht.1]
  exact ⟨ht.2, hu.2⟩

theorem Follows.concat {e' : Option StageEvent} {es es' : List StageEvent}
    (ht : Follows e' t (es ++ [e])) (hu : Follows (some e) u es') :
    Follows e' (t ++ u) (es ++ e :: es') := by
  have hlast : (es ++ [e]).getLast?.or e' = some e := by rw [List.getLast?_concat, Option.some_or]
  rw [List.append_cons]
  exact ht.append (hlast ▸ hu)

end Trace

namespace Executor
variable {x : Executor} {c : Case} {l l' : Ledger} {t : Trace} {e : StageEvent}

theorem Hands.follows {e' : Option StageEvent} {f : Option Fault} (he : x.emits = true)
    (h : x.Hands (.stage e) t f) : t.Follows e' [e] := by
  cases h with
  | silent hn => exact nomatch hn.symm.trans he
  | loud f m _ => exact ⟨rfl, trivial⟩

theorem Hands.within {r : Record} {f : Option Fault} (hr : r.stage? = none) (hfit : r.Fits e)
    (h : x.Hands r t f) : t.Within e := by
  cases h with
  | silent _ => exact fun _ hm => nomatch hm
  | loud f m _ =>
    rintro m hm
    obtain rfl := List.mem_singleton.1 hm
    exact ⟨hr, hfit⟩

def StaysIn (e : StageEvent) (_ : Ledger) (t : Trace) (_ : Option Fault) (_ : Ledger) : Prop :=
  t.Within e

theorem acts_staysIn : Acts x c (StaysIn e) (fun args => ∀ k, Call.Fits e ⟨k, args⟩)
    (fun p => p.stage? = some e.stage) where
  refl _ := fun _ hm => nomatch hm
  trans h h' := Trace.Within.append h h'
  offstage ht _ := Trace.within_of_offstage ht
  call callable args place hC := by
    intro l t o l' h
    obtain ⟨f, m, u, rfl, hu, _⟩ := ends_invoke h
    have hcall : Moment.Fits e ⟨.call callable args, f, m⟩ := hC callable
    exact List.forall_mem_cons.2 ⟨⟨rfl, hcall⟩, Trace.within_of_offstage hu⟩
  hook k f hP := by
    intro l t o l' h
    have hr : Record.Fits e (.hook (x.hookResult c k f)) := hP
    exact Hands.within rfl hr (ends_recordHook h).2
  stray _ _ _ := fun _ hm => nomatch hm

def stepEvent (c : Case) (index : Int) : StageEvent := ⟨c.id, .runningStep, some index, none⟩

theorem fits_of_isCallOfStep (index : Nat) (s : Step) (v : Value) (r : Option StepResult)
    (k : Callable) :
    Call.Fits (stepEvent c index) ⟨k, [.value v, .scope (stepScope c index s r)]⟩ := by
  refine ⟨?_, nofun⟩
  intro a ha
  simp only [List.mem_cons, List.not_mem_nil, or_false] at ha
  rcases ha with rfl | rfl
  · trivial
  · exact ⟨rfl, rfl⟩

theorem isValue_stepArguments (i : Instance) (captures : List Value) (argument : Value) :
    (stepArguments i captures argument).all Argument.isValue = true := by
  rw [List.all_eq_true]
  intro a ha
  rw [stepArguments] at ha
  split at ha <;> simp at ha
  · rcases ha with rfl | ⟨v, _, rfl⟩ <;> rfl
  · rcases ha with rfl | ⟨v, _, rfl⟩ | rfl <;> rfl

theorem fits_stepArguments (index : Nat) (i : Instance) (captures : List Value) (argument : Value)
    (k : Callable) : Call.Fits (stepEvent c index) ⟨k, stepArguments i captures argument⟩ := by
  refine ⟨?_, fun _ => rfl⟩
  intro a ha
  have hv := List.all_eq_true.1 (isValue_stepArguments i captures argument) a ha
  cases a with
  | value v => trivial
  | scope s => cases hv

theorem fits_stepResult (index : Nat) (s : Step) (v : Verdict) :
    Record.Fits (stepEvent c index) (.step (stepResult c index s v)) := by
  rw [Record.Fits]
  split
  · exact List.mem_cons_of_mem _ (List.mem_cons_of_mem _ List.mem_cons_self)
  · exact ⟨rfl, rfl⟩

theorem within_attempt {d : DispatchTable} {index : Nat} {s : Step} (hd : d.Fit) :
    Upholds (StaysIn (stepEvent c index)) (x.attempt c d index s) :=
  acts_staysIn.attempt hd rfl
    (fun i captures argument k => fits_stepArguments index i captures argument k)
    fun v r k => fits_of_isCallOfStep index s v r k

theorem within_review {d : DispatchTable} {index : Nat} {s : Step} {v : Verdict} (hd : d.Fit) :
    Upholds (StaysIn (stepEvent c index)) (x.review c d index s v) :=
  acts_staysIn.review hd rfl fun v r k => fits_of_isCallOfStep index s v r k

theorem within_recordStep {index : Nat} {s : Step} {v : Verdict} {o : Except Fault Unit}
    (h : Ends (x.recordStep (stepResult c index s v)) l t o l') : t.Within (stepEvent c index) :=
  Hands.within rfl (fits_stepResult index s v) (ends_recordStep h).2

theorem within_runStep {d : DispatchTable} {index : Nat} {s : Step} {o : Except Fault StepResult}
    (hd : d.Fit) (h : Ends (x.runStep c d index s) l t o l') : t.Within (stepEvent c index) := by
  rcases ends_bind_iff.1 h with ⟨u, w, v, l₁, rfl, ha, hk⟩ | ⟨f, rfl, ha⟩
  · apply Trace.Within.append (within_attempt hd ha)
    rcases ends_bind_iff.1 hk with ⟨u', w', v', l₂, rfl, hr, hk'⟩ | ⟨f, rfl, hr⟩
    · obtain ⟨_, _, hs⟩ := ends_bind_pure_iff.1 hk'
      exact Trace.Within.append (within_review hd hr) (within_recordStep hs)
    · exact within_review hd hr
  · exact within_attempt hd ha

theorem within_skipStep {index : Nat} {s : Step} {o : Except Fault Unit}
    (he : e.stage ∈ [.initializing, .runningBeforeHooks, .runningStep])
    (h : Ends (x.skipStep c index s) l t o l') : t.Within e := by
  have hs : (StepResult.skipped c.id index s).status = .skipped := rfl
  refine Hands.within rfl ?_ (ends_recordStep h).2
  rw [Record.Fits, if_pos hs]
  exact he

theorem within_skipAll {index : Nat} {ss : List Step} {o : Except Fault Unit}
    (he : e.stage ∈ [.initializing, .runningBeforeHooks, .runningStep])
    (h : Ends (x.skipAll c index ss) l t o l') : t.Within e := by
  induction ss generalizing l t index with
  | nil =>
    obtain ⟨rfl, _, _⟩ := ends_pure_iff.1 h
    exact fun _ hm => nomatch hm
  | cons s ss ih =>
    rcases ends_bind_iff.1 h with ⟨u, v, _, l₁, rfl, hs, hk⟩ | ⟨f, rfl, hs⟩
    · exact Trace.Within.append (within_skipStep he hs) (ih hk)
    · exact within_skipStep he hs

theorem steps_of_runStep {d : DispatchTable} {index : Nat} {s : Step} {r : StepResult} (hd : d.Fit)
    (he : x.emits = true) (h : Ends (x.runStep c d index s) l t (.ok r) l') :
    t.steps = [r] ∧ r.index = (index : Int) ∧ r.status ≠ .skipped := by
  have hl : l' = l.enter t := runActs_entered.runStep hd h he
  obtain ⟨hl', hp, hne⟩ := listed_of_runStep hd h
  rw [hl, Ledger.steps_enter] at hl'
  exact ⟨List.append_cancel_left hl', congrArg Prod.fst hp, hne⟩

theorem follows_runSteps {d : DispatchTable} {index : Nat} {skip : Bool} {ss : List Step}
    (hd : d.Fit) (hx : x.emits = true)
    (he : e.stage ∈ [.initializing, .runningBeforeHooks, .runningStep])
    (h : Ends (x.runSteps c d index skip ss) l t (.ok ()) l') :
    t.Follows (some e) (t.ran.map fun r => stepEvent c r.index) := by
  induction ss generalizing l t index skip e with
  | nil =>
    obtain ⟨rfl, _, _⟩ := ends_pure_iff.1 h
    exact ⟨rfl, trivial⟩
  | cons s ss ih =>
    have hstart : ∀ {u v : Trace} {stop : Bool} {es : List StageEvent}, x.Looks skip l u stop →
        Trace.Follows (some e) v es → Trace.Follows (some e) (u ++ v) es ∧ (u ++ v).ran = v.ran := by
      intro u v stop es hs hv
      have hu := hs.offstage
      have hran : Trace.ran u = [] := Trace.ran_of_steps_nil (Trace.steps_of_offstage hu)
      exact ⟨(Trace.within_of_offstage hu).follows.append hv, by rw [Trace.ran_append, hran, List.nil_append]⟩
    cases ends_runSteps_cons h with
    | skips u v w l₁ hs hr hrest =>
      have hran : Trace.ran v = [] := by
        rw [Trace.ran, (ends_recordStep hr).2.steps hx]
        rfl
      have hrest := (within_skipStep he hr).follows.append (ih he hrest)
      obtain ⟨hfollows, hranu⟩ := hstart hs hrest
      rw [hranu, Trace.ran_append, hran, List.nil_append]
      exact hfollows
    | starts u v w z r l₁ hs ht hr hrest =>
      have hv := (ends_transition ht).2
      obtain ⟨hsteps, hindex, hne⟩ := steps_of_runStep hd hx hr
      have hranv : Trace.ran v = [] := Trace.ran_of_steps_nil (hv.steps hx)
      have hranw : Trace.ran w = [r] := by
        rw [Trace.ran, hsteps]
        simp [hne]
      have hstage : (stepEvent c index).stage ∈
          [.initializing, .runningBeforeHooks, .runningStep] :=
        List.mem_cons_of_mem _ (List.mem_cons_of_mem _ List.mem_cons_self)
      have hrest := (within_runStep hd hr).follows.append (ih hstage hrest)
      obtain ⟨hfollows, hranu⟩ := hstart hs ((hv.follows hx).append hrest)
      rw [hranu, Trace.ran_append, Trace.ran_append, hranv, hranw, List.nil_append, List.cons_append,
        List.map_cons, hindex]
      exact hfollows

def stageEvent (c : Case) (stage : Stage) : StageEvent := ⟨c.id, stage, none, none⟩

theorem fits_of_isCallOfScenario {stage : Stage} {result : Option ScenarioResult}
    (h : stage = if result.isSome then .runningAfterHooks else .runningBeforeHooks) (v : Value)
    (k : Callable) :
    Call.Fits (stageEvent c stage) ⟨k, [.value v, .scope (.scenario (c.scope result))]⟩ := by
  refine ⟨?_, nofun⟩
  intro a ha
  simp only [List.mem_cons, List.not_mem_nil, or_false] at ha
  rcases ha with rfl | rfl
  · trivial
  · exact h

/-- The hooks before the steps stay in their own stage. -/
theorem within_beforeHooks {d : DispatchTable} (hd : d.Fit) :
    Upholds (StaysIn (stageEvent c .runningBeforeHooks))
      (x.runHooks .beforeScenario c d.arena (.scenario (c.scope none)) true) :=
  acts_staysIn.runHooks rfl hd.rooted rfl fun v k => fits_of_isCallOfScenario rfl v k

theorem follows_proceedThrough {d : DispatchTable} (hd : d.Fit) (hx : x.emits = true)
    (h : Ends (x.proceedThrough c d) l t (.ok ()) l') {e' : Option StageEvent} :
    t.Follows e' (stageEvent c .runningBeforeHooks :: t.ran.map fun r => stepEvent c r.index) := by
  cases proceedRun_of_ends h with
  | @proceeded u v w ready _ l₁ _ hs hh hk' =>
    have hu := (ends_transition hs).2
    have hhooks : Trace.Within (stageEvent c .runningBeforeHooks) v := within_beforeHooks hd hh
    have hstage : (stageEvent c .runningBeforeHooks).stage ∈
        [.initializing, .runningBeforeHooks, .runningStep] :=
      List.mem_cons_of_mem _ List.mem_cons_self
    have hsteps := follows_runSteps hd hx hstage hk'
    have hranu : Trace.ran u = [] := Trace.ran_of_steps_nil (hu.steps hx)
    have hranv : Trace.ran v = [] := by
      have hkeep : l₁.steps = l.steps := keepsSteps_runHooks hd rfl hh
      have henter : l₁ = l.enter v :=
        acts_entered.runHooks rfl hd.rooted trivial (fun _ => trivial) hh hx
      exact Trace.ran_of_steps_nil (steps_eq_nil_of_entered henter hkeep)
    rw [Trace.ran_append, Trace.ran_append, hranu, hranv, List.nil_append, List.nil_append]
    exact (hu.follows hx).append (hhooks.follows.append hsteps)

theorem follows_cleanUp {a : Arena} (ha : a.nodes ≠ []) (hx : x.emits = true)
    (h : Ends (x.cleanUp c a) l t (.ok ()) l') {e' : Option StageEvent} :
    t.Follows e' [stageEvent c .runningAfterHooks] := by
  obtain ⟨u, v, _, l₁, rfl, hs, hk⟩ := ends_bind_ok_iff.1 h
  obtain ⟨rfl, hu⟩ := ends_transition hs
  rw [ends_get_bind_iff] at hk
  obtain ⟨_, _, hh⟩ := ends_bind_pure_ok_iff.1 hk
  have hhooks : Trace.Within (stageEvent c .runningAfterHooks) v :=
    acts_staysIn.runHooks rfl ha rfl (fun v k => fits_of_isCallOfScenario rfl v k) hh
  exact (hu.follows hx).append hhooks.follows

theorem follows_announce {stage : Stage} {r : ScenarioResult} (hx : x.emits = true)
    (h : Ends (x.announce c stage) l t (.ok r) l') {e' : Option StageEvent} :
    t.Follows e' [stageEvent c stage] := by
  obtain ⟨_, rfl, u, v, rfl, hu, hv⟩ := hands_announce h
  have hfit : Record.Fits (stageEvent c stage) (.scenario (c.result l stage)) := rfl
  have hresult : Trace.Within (stageEvent c stage) v := Hands.within rfl hfit hv
  exact (hu.follows hx).append hresult.follows

theorem follows_conclude {r : ScenarioResult} (hx : x.emits = true)
    (h : Ends (x.conclude c) l t (.ok r) l') : t.Follows (some e) [stageEvent c r.stage] := by
  obtain ⟨stop, u, v, w, rfl, hs, ha, hw⟩ := parts_of_conclude h
  have hu := (ends_stopped hs).2.1
  have hstage : (if stop then Stage.aborted else .finalized) = r.stage := by
    obtain ⟨_, rfl, _⟩ := ends_announce ha
    rfl
  have hann : Trace.Follows (some e) v [stageEvent c r.stage] := hstage ▸ follows_announce hx ha
  have hwarn : Trace.Within (stageEvent c r.stage) w := Trace.within_of_offstage hw
  exact (Trace.within_of_offstage hu).follows.append (hann.append hwarn.follows)

/-- How a run is closed: its last stage and its result are all that is handed over, and the scenario
was aborted when it was to stop. -/
theorem closes_conclude {r : ScenarioResult} (hx : x.emits = true)
    (h : Ends (x.conclude c) l t (.ok r) l') :
    t.calls = [] ∧ t.hooks = [] ∧ t.records = [.stage (stageEvent c r.stage), .scenario r] ∧
      ∀ requested, t.heeds requested = true →
        r.stage = if x.Stopping l requested then .aborted else .finalized := by
  obtain ⟨_, hcalls, hhooks, _⟩ := closingActs_quiet.conclude h
  obtain ⟨stage, rfl, hrecords, hstage⟩ := ends_conclude h
  exact ⟨hcalls, hhooks, hrecords hx, hstage⟩

/-- A run on contexts, if nothing cuts it short, goes through its stages up to the hooks after the
scenario, and then it is closed. -/
theorem course_runComposed {d : DispatchTable} {o : Except Fault ScenarioResult} (hd : d.Fit)
    (ho : x.Orderly c) (hx : x.emits = true) (ht : t.tame = true) (hk : t.taken = true)
    (h : Ends (x.runComposed c d) l t o l') :
    ∃ (u v : Trace) (l₁ : Ledger) (r : ScenarioResult), o = .ok r ∧ t = u ++ v ∧
      (∀ e', u.Follows e' (stageEvent c .runningBeforeHooks ::
        (u.ran.map fun r => stepEvent c r.index) ++ [stageEvent c .runningAfterHooks])) ∧
      Noticed l u none l₁ ∧ Ends (x.conclude c) l₁ v (.ok r) l' := by
  obtain ⟨t₁, t₂, t₃, t₄, r₁, r₂, r₃, l₁, l₂, l₃, rfl, hproceed, hrecover, hclean, hend⟩ :=
    ends_runComposed h
  simp only [Trace.tame_append, Trace.taken_append, Bool.and_eq_true] at ht hk
  obtain ⟨ht₁, _, ht₃, ht₄⟩ := ht
  obtain ⟨hk₁, _, hk₃, hk₄⟩ := hk
  obtain ⟨_, rfl⟩ := (runActs_onlyCutBySink.proceedThrough hd hproceed ho ht₁).ok hk₁
  obtain ⟨_, rfl⟩ := (onlyCutBySink_cleanUp hd.rooted hclean ho ht₃).ok hk₃
  obtain ⟨_, hr, ⟨rfl, rfl, rfl, _⟩ | ⟨_, hf, _⟩⟩ := ends_recover hrecover
  · cases hr
    rcases hend with ⟨_, _, hconclude⟩ | ⟨_, _, f, _, hf | ⟨_, hf⟩⟩
    · obtain ⟨r, rfl⟩ := (closingActs_onlyCutBySink.conclude hconclude ho ht₄).ok hk₄
      refine ⟨t₁ ++ t₃, t₄, l₃, r, rfl, by simp, fun e' => ?_, ?_, hconclude⟩
      · have hran : Trace.ran t₃ = [] := by
          have henter := entered_cleanUp hd.rooted hclean hx
          exact Trace.ran_of_steps_nil
            (steps_eq_nil_of_entered henter (steps_cleanUp hd.rooted hclean))
        rw [Trace.ran_append, hran, List.append_nil]
        exact (follows_proceedThrough hd hx hproceed).append (follows_cleanUp hd.rooted hx hclean)
      · exact (runActs_noticed (x := x) (c := c)).trans
          (runActs_noticed.proceedThrough hd hproceed) (noticed_cleanUp hd.rooted hclean)
    · cases hf
    · cases hf
  · cases hf

theorem follows_cleanUpSalvaged {salvaged : Option Arena}
    (ha : ∀ a, salvaged = some a → a.nodes ≠ []) (hx : x.emits = true)
    (h : Ends (x.cleanUpSalvaged c salvaged) l t (.ok ()) l') :
    ∃ es, (es = [] ∨ es = [stageEvent c .runningAfterHooks]) ∧ t.Follows (some e) es := by
  cases salvaged with
  | none =>
    obtain ⟨rfl, _, _⟩ := ends_pure_iff.1 h
    exact ⟨[], .inl rfl, rfl, trivial⟩
  | some a => exact ⟨_, .inr rfl, follows_cleanUp (ha a rfl) hx h⟩

/-- A scenario without contexts announces that it is aborted, after the cleanup if there is one. -/
theorem course_abandon {cause : Fault} {salvaged : Option Arena} {o : Except Fault ScenarioResult}
    (ha : ∀ a, salvaged = some a → a.nodes ≠ []) (ho : x.Orderly c) (hx : x.emits = true)
    (ht : t.tame = true) (hk : t.taken = true) (h : Ends (x.abandon c cause salvaged) l t o l') :
    ∃ (u v : Trace) (r : ScenarioResult) (es : List StageEvent), o = .ok r ∧ t = u ++ v ∧
      (es = [] ∨ es = [stageEvent c .runningAfterHooks]) ∧
      u.Follows (some (stageEvent c .initializing)) es ∧
      (∀ e', v.Follows e' [stageEvent c .aborted]) ∧ r.stage = .aborted ∧ v.calls = [] ∧
      v.hooks = [] ∧ v.records = [.stage (stageEvent c r.stage), .scenario r] := by
  have hlogged : ∀ level message fields,
      Upholds (x.OnlyCutBySink (x.Orderly c)) (x.log level message fields) := by
    intro level message fields l t o l' h
    obtain ⟨rfl, hoff, hok⟩ := Effect.ends_log h
    exact onlyCutBySink_of_offstage hoff fun ht => by rw [hok ht, errorIn_ok]
  obtain ⟨t₁, u, _, l₁, rfl, hlog, h, ht, hk⟩ := ends_bind_of_taken (hlogged _ _ _) ho ht hk h
  rw [ends_modify_bind_iff] at h
  obtain ⟨t₂, u, _, l₂, rfl, hskip, h, ht, hk⟩ :=
    ends_bind_of_taken runActs_onlyCutBySink.skipAll ho ht hk h
  obtain ⟨t₃, t₄, _, l₃, rfl, hclean, h, ht, hk⟩ :=
    ends_bind_of_taken (onlyCutBySink_cleanUpSalvaged ha) ho ht hk h
  obtain ⟨r, rfl⟩ := (closingActs_onlyCutBySink.announce h ho ht).ok hk
  obtain ⟨_, hcalls, hhooks, _⟩ := closingActs_quiet.announce h
  obtain ⟨_, hr, hrecords⟩ := ends_announce h
  have hstage : r.stage = .aborted := by
    rw [hr]
    rfl
  obtain ⟨es, hes, hfollows⟩ := follows_cleanUpSalvaged ha hx hclean
  have hlogged : Trace.Within (stageEvent c .initializing) t₁ :=
    Trace.within_of_offstage (Effect.ends_log hlog).2.1
  have hskipped : Trace.Within (stageEvent c .initializing) t₂ :=
    within_skipAll List.mem_cons_self hskip
  refine ⟨t₁ ++ (t₂ ++ t₃), t₄, r, es, rfl, by simp, hes, ?_, ?_, hstage, hcalls, hhooks, ?_⟩
  · exact hlogged.follows.append (hskipped.follows.append hfollows)
  · exact fun e' => follows_announce hx h
  · rw [hstage]
    exact hrecords hx

def courseOf (c : Case) (k : Nat) (last : Stage) : List StageEvent :=
  stageEvent c .initializing :: stageEvent c .runningBeforeHooks ::
    ((List.range k).map fun i : Nat => stepEvent c i) ++
      [stageEvent c .runningAfterHooks, stageEvent c last]

/-- A trace is the course of a scenario to its result. The trace of all that happens up to the last
stage tells which stage that is. -/
structure Concludes (x : Executor) (c : Case) (requested : Bool) (t : Trace) (r : ScenarioResult) :
    Prop where
  prepared : ∀ d, x.Prepared c t d →
    t.stages = courseOf c (r.steps.countP (·.status ≠ .skipped)) r.stage
  unprepared : (∀ d, ¬ x.Prepared c t d) →
    t.stages = [stageEvent c .initializing, stageEvent c .aborted] ∨
      t.stages = [stageEvent c .initializing, stageEvent c .runningAfterHooks, stageEvent c .aborted]
  staged : t.Staged none
  closed : ∃ u v : Trace, t = u ++ v ∧ v.calls = [] ∧ v.hooks = [] ∧
    v.records = [.stage (stageEvent c r.stage), .scenario r] ∧
    (r.stage = .aborted ↔ (∀ d, ¬ x.Prepared c t d) ∨ u.interrupted = true ∨
      x.watches = true ∧ u.signal requested = true)
  terminal : r.stage = .finalized ∨ r.stage = .aborted

theorem follows_setUp {o : Except Broken DispatchTable} (hx : x.emits = true)
    (h : Ends (x.setUp c) l t (.ok o) l') : t.Follows none [stageEvent c .initializing] := by
  obtain ⟨_, u, v, rfl, hv, hu, _⟩ := ends_setUp h
  exact (hu.follows hx).append (Trace.within_of_offstage hv).follows

theorem indices_of_account {ss : List Step} {ran skipped : List StepResult}
    (h : Account 0 ss ran skipped) :
    ran.map StepResult.index = (List.range ran.length).map fun i : Nat => (i : Int) := by
  refine List.ext_getElem (by simp) fun i hi _ => ?_
  rw [List.length_map] at hi
  have hlt : i < ((ran ++ skipped).map StepResult.place).length := by
    rw [List.length_map, List.length_append]
    omega
  have hss : (Step.places 0 ss)[i]? = some ran[i].place := by
    rw [List.getElem?_eq_getElem (Nat.lt_of_lt_of_le hlt h.places.length_le), ← h.places.getElem hlt,
      List.getElem_map, List.getElem_append_left hi]
  rw [Step.getElem?_places, Option.map_eq_some_iff] at hss
  obtain ⟨s, _, hs⟩ := hss
  have hindex : ((0 + i : Nat) : Int) = ran[i].index := congrArg Prod.fst hs
  rw [Nat.zero_add] at hindex
  rw [List.getElem_map, List.getElem_map, List.getElem_range, hindex]

theorem filter_of_account {ss : List Step} {ran skipped : List StepResult}
    (h : Account 0 ss ran skipped) : (ran ++ skipped).filter (·.status ≠ .skipped) = ran := by
  rw [List.filter_append, List.filter_eq_self.2 fun r hr => decide_eq_true (h.ran r hr),
    List.filter_eq_nil_iff.2 fun r hr => by simp [h.skipped r hr], List.append_nil]

/-- Where the results of steps that were run are an account, the stages of these steps are numbered
from zero on. -/
theorem follows_courseOf {u v w : Trace} {l₁ l₂ : Ledger} {d : DispatchTable} {ss : List Step}
    {skipped : List StepResult} {r : ScenarioResult} (hx : x.emits = true)
    (hs : Ends (x.setUp c) l u (.ok (.ok d)) l') (ha : Account 0 ss v.ran skipped)
    (hv : ∀ e', v.Follows e' (stageEvent c .runningBeforeHooks ::
      (v.ran.map fun r => stepEvent c r.index) ++ [stageEvent c .runningAfterHooks]))
    (hw : Ends (x.conclude c) l₁ w (.ok r) l₂) :
    Trace.Follows none (u ++ (v ++ w)) (courseOf c v.ran.length r.stage) := by
  have hmap : v.ran.map (fun r => stepEvent c r.index) =
      (List.range v.ran.length).map fun i : Nat => stepEvent c i := by
    have hindex := congrArg (List.map (stepEvent c)) (indices_of_account ha)
    rw [List.map_map, List.map_map] at hindex
    exact hindex
  have hend := (hv (some (stageEvent c .initializing))).concat (follows_conclude hx hw)
  rw [hmap] at hend
  exact (follows_setUp hx hs).append hend

theorem concludes_of_runComposed {d : DispatchTable} {requested : Bool} {u v : Trace}
    {o : Except Fault ScenarioResult}
    (hs : Ends (x.setUp c) Ledger.empty u (.ok (.ok d)) Ledger.empty)
    (hd : d.Fit) (ho : x.Orderly c) (hx : x.emits = true) (ht : Trace.tame v = true)
    (hb : Trace.heeds requested (u ++ v) = true) (hk : Trace.taken (u ++ v) = true)
    (h : Ends (x.runComposed c d) Ledger.empty v o l') :
    ∃ r, o = .ok r ∧ x.Concludes c requested (u ++ v) r := by
  have hb' := hb
  rw [Trace.heeds_append, Bool.and_eq_true] at hb'
  obtain ⟨r', ran, skipped, rfl, hr, ha, hlen⟩ :=
    accounted_runComposed (u := u) hd ho ht hb'.2 (.inl hk) rfl h
  have hsteps : v.steps = r'.steps := by
    obtain ⟨hit, stage, hr'⟩ := entered_runComposed hd hx h
    rw [hr']
    rfl
  rw [Trace.taken_append, Bool.and_eq_true] at hk
  obtain ⟨v₁, v₂, l₁, r, hr', rfl, hcourse, hnoticed, hconclude⟩ :=
    course_runComposed hd ho hx ht hk.2 h
  obtain rfl := Except.ok.inj hr'
  obtain ⟨hcalls, hhooks, hrecords, hstage⟩ := closes_conclude hx hconclude
  have hran : Trace.ran v₁ = ran := by
    have hv : Trace.steps (v₁ ++ v₂) = Trace.steps v₁ := by
      rw [Trace.steps_append, Trace.steps, Trace.steps, hrecords]
      simp [Record.step?]
    rw [Trace.ran, ← hv, hsteps, hr, filter_of_account ha]
  have hfollows : Trace.Follows none (u ++ (v₁ ++ v₂)) (courseOf c ran.length r'.stage) := by
    subst hran
    exact follows_courseOf hx hs ha hcourse hconclude
  have hcount : r'.steps.countP (·.status ≠ .skipped) = ran.length := by
    rw [List.countP_eq_length_filter, hr, filter_of_account ha]
  have hinterrupted : l₁.interrupted = Trace.interrupted (u ++ v₁) := by
    have hstarted : false = Trace.interrupted u := (noticed_setUp hs).1
    rw [hnoticed.1, Trace.interrupted_append, ← hstarted]
    rfl
  rw [← List.append_assoc, Trace.heeds_append, Bool.and_eq_true] at hb
  have hstage := hstage _ hb.2
  rw [Stopping, hinterrupted] at hstage
  have hready : ¬ ∀ d', ¬ x.Prepared c (u ++ (v₁ ++ v₂)) d' :=
    fun hno => hno d ⟨u, v₁ ++ v₂, _, rfl, hs⟩
  refine ⟨r', rfl, fun _ _ => ?_, fun hno => absurd hno hready, hfollows.2, ?_, ?_⟩
  · rw [hcount]
    exact hfollows.1
  · refine ⟨u ++ v₁, v₂, (List.append_assoc ..).symm, hcalls, hhooks, hrecords, ?_⟩
    rw [hstage, or_iff_right hready, ← Bool.and_eq_true, ← Bool.or_eq_true]
    split
    · rename_i hstop
      exact iff_of_true rfl hstop
    · rename_i hgo
      exact iff_of_false (fun he => by cases he) hgo
  · rw [hstage]
    split
    · exact .inr rfl
    · exact .inl rfl

theorem concludes_of_abandon {b : Broken} {requested : Bool} {u v : Trace}
    {o : Except Fault ScenarioResult}
    (hs : Ends (x.setUp c) Ledger.empty u (.ok (.error b)) Ledger.empty) (ho : x.Orderly c)
    (hx : x.emits = true) (ht : Trace.tame v = true) (hk : Trace.taken v = true)
    (h : Ends (x.abandon c b.fault b.salvaged) Ledger.empty v o l') :
    ∃ r, o = .ok r ∧ x.Concludes c requested (u ++ v) r := by
  obtain ⟨_, _, _, _, _, _, hsetup⟩ := ends_setUp hs
  have hrooted : ∀ a, b.salvaged = some a → a.nodes ≠ [] := fun a => (hsetup _ rfl).rooted b a rfl
  have hno : ∀ d, ¬ x.Prepared c (u ++ v) d := by
    rintro d ⟨u', v', l'', he, hs'⟩
    obtain ⟨_, hr⟩ := Program.Runs.unique hs hs' he
    exact nomatch congrArg Prod.fst hr
  obtain ⟨v₁, v₂, r, es, rfl, rfl, hes, hfollows, hlast, hstage, hcalls, hhooks, hrecords⟩ :=
    course_abandon hrooted ho hx ht hk h
  have hall : Trace.Follows none (u ++ (v₁ ++ v₂))
      (stageEvent c .initializing :: (es ++ [stageEvent c .aborted])) :=
    (follows_setUp hx hs).append (hfollows.append (hlast _))
  refine ⟨r, rfl, fun d hp => absurd hp (hno d), fun _ => ?_, hall.2, ?_, .inr hstage⟩
  · rcases hes with rfl | rfl
    · exact .inl hall.1
    · exact .inr hall.1
  · refine ⟨u ++ v₁, v₂, (List.append_assoc ..).symm, hcalls, hhooks, hrecords, ?_⟩
    exact iff_of_true hstage (.inl hno)

/-- The course of a run whose records are all taken, of callables that do not exit. Either its contexts
were set up, and there are the hooks before, a stage for each step that is run, the hooks after and the
end; or they were not, and it is aborted. What is called and handed over belongs to its stage; the
scenario was aborted if it was not set up, or was interrupted or asked to abort before the last stage;
its result comes last. -/
theorem run_concludes {scenario : Scenario} {feature : Option Feature} {id : Option String}
    {requested : Bool} {o : Except Fault ScenarioResult}
    (h : (x.run scenario feature id).Runs t o)
    (ho : x.Orderly (.named scenario feature id)) (hx : x.emits = true) (ht : t.tame = true)
    (hb : t.heeds requested = true) (hk : t.taken = true) :
    ∃ r, o = .ok r ∧ x.Concludes (.named scenario feature id) requested t r := by
  obtain ⟨l', hc⟩ := runs_run_iff.1 h
  rcases ends_runCase hc with ⟨f, rfl, hs⟩ | ⟨u, v, r, rfl, hs, hv⟩
  · obtain ⟨_, u, v, rfl, _, hu, _⟩ := ends_setUp hs
    rw [Trace.taken_append, Bool.and_eq_true] at hk
    exact nomatch (cutBy_of_hands hu).eq_none hk.1
  · have htv := ht
    rw [Trace.tame_append, Bool.and_eq_true] at htv
    rcases r with b | d
    · obtain ⟨_, _, _, _, _, _, hsetup⟩ := ends_setUp hs
      have hcontained := (hsetup _ rfl).contained htv.1 b rfl
      rw [Trace.taken_append, Bool.and_eq_true] at hk
      dsimp only at hv
      rw [hcontained] at hv
      exact concludes_of_abandon hs ho hx htv.2 hk.2 hv
    · obtain ⟨_, _, _, _, _, _, hsetup⟩ := ends_setUp hs
      exact concludes_of_runComposed hs ((hsetup _ rfl).fit d rfl) ho hx htv.2 hb hk hv

/-- A hook before the scenario is interrupted; its steps are skipped. -/
theorem run_concludes_sample :
    let x := Sample.executor
      [Sample.hook .beforeScenario 1 "reserve", Sample.hook .afterScenario 2 "pay"]
    let w := Sample.surroundings (fun _ => none)
      fun n => if n = 1 then some (.ofKind "KeyboardInterrupt" "") else none
    let t := w.traceOf (x.run Sample.scenario none none)
    t.taken = true ∧ ∃ r, w.resultOf (x.run Sample.scenario none none) = .ok r ∧
      t.stages = courseOf (.named Sample.scenario none none)
        (r.steps.countP (·.status ≠ .skipped)) r.stage := by
  intro x w t
  have hc : compose x.root = _ := compose_leaf ..
  have hk : t.taken = true := by
    unfold t Surroundings.traceOf Executor.run Executor.runCase Executor.setUp
    rw [hc]
    decide +kernel
  have ht : t.tame = true := by
    refine Surroundings.tame_traceOf _ (Sample.tame fun n f hf => ?_)
    split at hf
    · rw [← Option.some.inj hf]
      exact nofun
    · cases hf
  obtain ⟨r, hr, hconcludes⟩ := run_concludes (w.runs_traceOf _) (Sample.orderly (by decide)) rfl ht
    (w.heeds_traceOf _) hk
  exact ⟨hk, r, hr, hconcludes.prepared _ (Sample.prepared rfl)⟩

end Executor
end Rehearsal
