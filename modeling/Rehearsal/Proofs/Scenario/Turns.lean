import Rehearsal.Proofs.Scenario.Course
import Rehearsal.Proofs.Scenario.Summary

/-! The course of a scenario whose records are all taken, as far as its hooks and steps go. The steps are
bracketed by the hooks of the scenario, and each of them, if it is started, by those of the step. -/

namespace Rehearsal.Executor
set_option autoImplicit false
variable {x : Executor} {c : Case} {l l' : Ledger} {t : Trace} {a : Arena} {scope : Scope}
  {requested : Bool}

/-- The hooks of a phase that are chosen for a case and whose contexts are there. -/
def applicable (x : Executor) (phase : HookPhase) (c : Case) (a : Arena) : List Hook :=
  match x.registry.lookup phase (some c.tags) with
  | .ok hooks => hooks.filter fun h => a.binds h.owner
  | .error _ => []

/-- A hook that is pending has not failed. -/
def failing (f : Option Fault) : Bool := f.any (·.family != .pending)

/-- What hooks before a step are for: the step is called at most once, and not if one of them failed. A
step is told nothing of its scope. -/
structure StepBody (ready : Bool) (t : Trace) : Prop where
  once : t.calls.length ≤ 1
  unready : ready = false → t.calls = []
  steps : ∀ k ∈ t.calls, k.args.all Argument.isValue = true
  unbegun : t.begins = false

/-- The course of a step that is started. -/
structure StepCourse (x : Executor) (c : Case) (a : Arena) (p : Step × Nat) (t : Trace)
    (r : StepResult) : Prop where
  ran : r.status ≠ .skipped
  place : r.place = ((p.2 : Int), p.1.text, p.1.line)
  course : ∃ u v : Trace, t = u ++ v ∧ x.Hands (.stage (stepEvent c p.2)) u none ∧
    Bracket (IsCallOf a (stepScope c p.2 p.1 none)) failing (x.applicable .beforeStep c a)
      (fun ready _ w (_ : Unit) => StepBody ready w)
      (fun shown => IsCallOf a (stepScope c p.2 p.1 (some shown))) (x.applicable .afterStep c a)
      false v ()

def skippedStep (c : Case) (p : Step × Nat) : StepResult := .skipped c.id p.2 p.1

/-- In the run that a trace tells of, the contexts of a case could not be set up. -/
def Broke (x : Executor) (c : Case) (t : Trace) (b : Broken) : Prop :=
  ∃ u v l, t = u ++ v ∧ Ends (x.setUp c) Ledger.empty u (.ok (.error b)) l

/-- The hooks after a scenario are called on the contexts that were built, if there are any. -/
def Salvages (x : Executor) (c : Case) (ks : List Call) : Option Arena → Prop
  | some a => ∃ shown, List.Forall₂ (IsCallOf a (.scenario (c.scope (some shown)))) ks
      (x.applicable .afterScenario c a)
  | none => ks = []

/-- The course of a scenario that is started. Steps are skipped for other reasons than an abort as
well. -/
inductive ScenarioCourse (x : Executor) (c : Case) : Trace → ScenarioResult → Prop where
  | composed {d : DispatchTable} {u v : Trace} {r : ScenarioResult} : x.Prepared c (u ++ v) d →
      x.Hands (.stage (stageEvent c .initializing)) u none →
      Bracket (IsCallOf d.arena (.scenario (c.scope none))) failing
        (x.applicable .beforeScenario c d.arena)
        (TurnsIf (fun _ => True) (skippedStep c) (x.StepCourse c d.arena) c.scenario.steps.zipIdx)
        (fun shown => IsCallOf d.arena (.scenario (c.scope (some shown))))
        (x.applicable .afterScenario c d.arena) (u.signal false) v r.steps →
      ScenarioCourse x c (u ++ v) r
  | abandoned {b : Broken} {u v : Trace} {r : ScenarioResult} :
      x.Broke c (u ++ v) b → x.Hands (.stage (stageEvent c .initializing)) u none →
      x.Salvages c v.calls b.salvaged → v.begins = false →
      r.steps = c.scenario.steps.zipIdx.map (skippedStep c) → ScenarioCourse x c (u ++ v) r

theorem binds_of_mem_applicable {phase : HookPhase} : ∀ h ∈ x.applicable phase c a,
    a.binds h.owner = true := by
  intro h hm
  rw [applicable] at hm
  split at hm
  · exact (List.mem_filter.1 hm).2
  · cases hm

theorem ends_runHooks {phase : HookPhase} {halt : Bool} {o : Except Fault Bool} (ho : x.Orderly c)
    (hscope : scope.tags = some c.tags) (h : Ends (x.runHooks phase c a scope halt) l t o l') :
    Ends (x.runHookList c a scope halt (x.applicable phase c a)) l t o l' := by
  obtain ⟨hooks, hl⟩ := ho.selects phase
  rw [runHooks, hscope, hl] at h
  rw [applicable, hl]
  exact h

theorem countsAs_eq_failed_iff (place : String) (f : Option Fault) :
    (x.countsAs place f).1 = .failed ↔ failing f = true := by
  cases f with
  | none => exact iff_of_false nofun nofun
  | some f => cases hf : f.family <;> simp [countsAs, failing, hf]

theorem upToFailure_runHookList {hs : List Hook} {ready : Bool} (ha : a.nodes ≠ [])
    (hb : ∀ h ∈ hs, a.binds h.owner = true)
    (h : Ends (x.runHookList c a scope true hs) l t (.ok ready) l') (ht : t.tame = true) :
    UpToFailure (IsCallOf a scope) failing hs t.invocations ready := by
  induction hs generalizing l t with
  | nil =>
    obtain ⟨rfl, hr, _⟩ := ends_pure_iff.1 h
    cases hr
    exact .nil
  | cons k hs ih =>
    obtain ⟨hbk, hbs⟩ := List.forall_mem_cons.1 hb
    rw [runHookList] at h
    obtain ⟨u, v, s, l₁, rfl, hk, hrest⟩ := ends_bind_ok_iff.1 h
    rw [Trace.tame_append, Bool.and_eq_true] at ht
    obtain ⟨call, f, hcall, hof, _, hs⟩ := ends_runHook ha hbk ht.1 hk
    obtain rfl := hs s rfl
    have hfails := countsAs_eq_failed_iff (x := x) k.name f
    rw [Trace.invocations_append, hcall]
    split at hrest
    · rename_i hf
      obtain ⟨rfl, hr, _⟩ := ends_pure_iff.1 hrest
      cases hr
      exact .halt hof (hfails.1 (eq_of_beq hf))
    · rename_i hf
      have hnot : failing f = false :=
        Bool.not_eq_true _ ▸ fun he => hf (beq_iff_eq.2 (hfails.2 he))
      exact .next hof hnot (ih hbs hrest ht.2)

theorem forall₂_runHookList {hs : List Hook} {clean : Bool} (ha : a.nodes ≠ [])
    (hb : ∀ h ∈ hs, a.binds h.owner = true)
    (h : Ends (x.runHookList c a scope false hs) l t (.ok clean) l') (ht : t.tame = true) :
    List.Forall₂ (IsCallOf a scope) t.calls hs := by
  obtain ⟨n, hcalls, _, hn⟩ := ends_runHookList ha hb ht h
  rwa [List.take_of_length_le (hn rfl)] at hcalls

def Unbegun (_ : Ledger) (t : Trace) (_ : Option Fault) (_ : Ledger) : Prop := t.begins = false

theorem acts_unbegun : Acts x c Unbegun (fun _ => True) (fun _ => True) where
  refl _ := rfl
  trans {_ _ _ t u _} ht hu := by
    have ht : Trace.begins t = false := ht
    have hu : Trace.begins u = false := hu
    rw [Unbegun, Trace.begins_append, ht, hu, Bool.or_false]
  offstage ht _ := Trace.begins_of_offstage ht
  call callable args place _ := by
    intro l t o l' h
    obtain ⟨f, m, u, rfl, hu, _⟩ := ends_invoke h
    have hu : Trace.begins u = false := Trace.begins_of_offstage hu
    exact hu
  hook k f _ := by
    intro l t o l' h
    exact (ends_recordHook h).2.begins rfl
  stray _ _ _ := rfl

theorem body_of_dispatch {d : DispatchTable} {s : Step} {v : Verdict} (hd : d.Fit)
    (h : Ends (x.dispatch c d s) l t (.ok v) l') : StepBody true t := by
  have hbegins : t.begins = false := acts_unbegun.dispatch hd (fun _ _ _ => trivial) h
  rcases ends_dispatch h with ⟨_, hoff, _⟩ | ⟨m, i, u, w, r, _, _, rfl, hu, hcall, _⟩
  · have hnil := Trace.calls_of_offstage hoff
    exact ⟨by simp [hnil], nofun, by simp [hnil], hbegins⟩
  · obtain ⟨f, hcalled, _⟩ := invocations_invoke hcall
    have hone : Trace.calls (u ++ w) = [⟨m.definition.callable, stepArguments i m.args s.argument⟩] := by
      rw [Trace.calls_append, Trace.calls_of_offstage hu, ← Trace.map_invocations, hcalled]
      rfl
    refine ⟨by simp [hone], nofun, fun k hk => ?_, hbegins⟩
    rw [hone, List.mem_singleton] at hk
    rw [hk]
    exact isValue_stepArguments ..

theorem course_runStep {d : DispatchTable} {p : Step × Nat} {r : StepResult} {u : Trace}
    (hd : d.Fit) (ho : x.Orderly c) (hu : x.Hands (.stage (stepEvent c p.2)) u none)
    (h : Ends (x.runStep c d p.2 p.1) l t (.ok r) l') (ht : t.tame = true) :
    x.StepCourse c d.arena p (u ++ t) r ∧ l'.steps = l.steps ++ [r] := by
  obtain ⟨hl, hplace, hran⟩ := listed_of_runStep hd h
  refine ⟨⟨hran, hplace, u, t, rfl, hu, ?_⟩, hl⟩
  obtain ⟨t₁, u₁, verdict, l₁, rfl, hattempt, hk⟩ := ends_bind_ok_iff.1 h
  obtain ⟨t₂, t₃, verdict', l₂, rfl, hreview, hk'⟩ := ends_bind_ok_iff.1 hk
  obtain ⟨_, _, hrecord⟩ := ends_bind_pure_ok_iff.1 hk'
  obtain ⟨v, w, ready, l₃, rfl, hbefore, hstep⟩ := ends_bind_ok_iff.1 hattempt
  obtain ⟨z, z', clean, l₄, rfl, hafter, hrest⟩ := ends_bind_ok_iff.1 hreview
  obtain rfl : z' = [] := by
    split at hrest
    · rw [ends_get_bind_iff] at hrest
      exact (ends_pure_iff.1 hrest).1
    · exact (ends_pure_iff.1 hrest).1
  have hassoc : (v ++ w) ++ ((z ++ []) ++ t₃) = v ++ (w ++ (z ++ t₃)) := by simp
  rw [hassoc] at ht ⊢
  simp only [Trace.tame_append, Bool.and_eq_true] at ht
  have hrecorded := (ends_recordStep hrecord).2
  have hunbegun : ∀ {phase : HookPhase} {scope : Scope} {halt : Bool} {l : Ledger} {v : Trace}
      {o : Except Fault Bool} {l' : Ledger}, scope.tags = some c.tags →
      Ends (x.runHooks phase c d.arena scope halt) l v o l' → Trace.begins v = false :=
    fun hs h => acts_unbegun.runHooks hs hd.rooted trivial (fun _ => trivial) h
  have hopen := upToFailure_runHookList hd.rooted binds_of_mem_applicable
    (ends_runHooks ho rfl hbefore) ht.1
  refine .intro (stepResult c p.2 p.1 verdict) hopen (hunbegun rfl hbefore) ?_ ?_ ?_
  · cases ready with
    | true => exact body_of_dispatch hd hstep
    | false =>
      rw [if_neg Bool.false_ne_true, ends_get_bind_iff] at hstep
      obtain ⟨rfl, _⟩ := ends_pure_iff.1 hstep
      exact ⟨Nat.zero_le 1, fun _ => rfl, nofun, rfl⟩
  · rw [Trace.calls_append, hrecorded.calls, List.append_nil]
    exact forall₂_runHookList hd.rooted binds_of_mem_applicable (ends_runHooks ho rfl hafter)
      ht.2.2.1
  · rw [Trace.begins_append, hunbegun rfl hafter, hrecorded.begins rfl]
    rfl

theorem idle_skipAll {index : Nat} {ss : List Step} (h : Ends (x.skipAll c index ss) l t (.ok ()) l') :
    t.Idle ∧ l'.steps = l.steps ++ (ss.zipIdx index).map (skippedStep c) := by
  induction ss generalizing l t index with
  | nil =>
    obtain ⟨rfl, _, rfl⟩ := ends_pure_iff.1 h
    exact ⟨⟨rfl, rfl⟩, by simp⟩
  | cons s ss ih =>
    obtain ⟨u, v, _, l₁, rfl, hskip, hk⟩ := ends_bind_ok_iff.1 h
    obtain ⟨rfl, hu⟩ := ends_recordStep hskip
    obtain ⟨hidle, hl⟩ := ih hk
    refine ⟨Trace.Idle.append ⟨hu.calls, hu.begins rfl⟩ hidle, ?_⟩
    rw [hl, List.zipIdx_cons, List.map_cons]
    exact List.append_assoc ..

/-- After a hook before the scenario failed, all steps are skipped. -/
theorem runSteps_skip (d : DispatchTable) (index : Nat) (ss : List Step) :
    x.runSteps c d index true ss = x.skipAll c index ss := by
  induction ss generalizing index with
  | nil => rfl
  | cons s ss ih =>
    rw [runSteps, skipAll, ← ih]
    rfl

theorem ends_stopped_false (hw : x.watches = true) (h : Ends x.stopped l t (.ok false) l') :
    l' = l ∧ ∃ b, t = [⟨.aborted, false, b⟩] := by
  rw [stopped, ends_get_bind_iff] at h
  by_cases hi : l.interrupted = true
  · rw [if_pos hi] at h
    cases (ends_pure_iff.1 h).2.1
  · rw [if_neg hi, if_pos hw] at h
    obtain ⟨rfl, y, b, hy, rfl⟩ := Effect.ends_aborted_iff.1 h
    cases hy
    exact ⟨rfl, b, rfl⟩

theorem inTurn_runSteps {d : DispatchTable} {index : Nat} {skip : Bool} {ss : List Step} (hd : d.Fit)
    (ho : x.Orderly c) (hw : x.watches = true)
    (h : Ends (x.runSteps c d index skip ss) l t (.ok ()) l') (ht : t.Smooth requested) :
    ∃ rs, l'.steps = l.steps ++ rs ∧
      InTurn (Turn (fun _ => True) (skippedStep c) (x.StepCourse c d.arena)) (ss.zipIdx index)
        requested t rs := by
  induction ss generalizing l t index skip requested with
  | nil =>
    obtain ⟨rfl, _, rfl⟩ := ends_pure_iff.1 h
    exact ⟨[], (List.append_nil _).symm, .nil requested⟩
  | cons s ss ih =>
    rw [List.zipIdx_cons]
    cases ends_runSteps_cons h with
    | skips u v w l₁ hs hr hrest =>
      have hoff := hs.offstage
      obtain ⟨rfl, hv⟩ := ends_recordStep hr
      rw [← List.append_assoc] at ht ⊢
      obtain ⟨rs, hl, hturns⟩ := ih hrest (Trace.smooth_append.1 ht).2
      refine ⟨skippedStep c (s, index) :: rs, ?_, .cons (.skipped trivial ?_) hturns⟩
      · rw [hl]
        exact List.append_assoc ..
      · exact (Trace.idle_of_offstage hoff).append ⟨hv.calls, hv.begins rfl⟩
    | starts u v w z r l₁ hs hstage hr hrest =>
      have hstop : Ends x.stopped l u (.ok false) l := by
        cases skip with
        | true => cases (ends_pure_iff.1 hs).2.1
        | false => exact hs
      obtain ⟨_, b, rfl⟩ := ends_stopped_false hw hstop
      have hv := (ends_transition hstage).2
      obtain ⟨hu, ht⟩ := Trace.smooth_append.1 ht
      obtain ⟨⟨rfl, rfl⟩, _⟩ := Trace.smooth_aborted.1 hu
      rw [← List.append_assoc v] at ht ⊢
      obtain ⟨hvw, hz⟩ := Trace.smooth_append.1 ht
      have hw := (Trace.smooth_append.1 hvw).2
      obtain ⟨hcourse, hl⟩ := course_runStep (p := (s, index)) hd ho hv hr hw.tame
      rw [← Trace.signal_append] at hz
      obtain ⟨rs, hls, hturns⟩ := ih hrest hz
      refine ⟨r :: rs, ?_, ?_⟩
      · rw [hls, hl]
        exact List.append_assoc ..
      · rw [← List.append_assoc]
        exact .cons (.started hcourse) hturns

theorem idle_announce {stage : Stage} {r : ScenarioResult}
    (hstage : stage = .aborted ∨ stage = .finalized) (h : Ends (x.announce c stage) l t (.ok r) l') :
    t.Idle ∧ r.steps = l.steps := by
  obtain ⟨_, rfl, u, v, rfl, hu, hv⟩ := hands_announce h
  have hbegins : Record.begins (.stage ⟨c.id, stage, none, none⟩) = false := by
    rcases hstage with rfl | rfl <;> rfl
  exact ⟨Trace.Idle.append ⟨hu.calls, hu.begins hbegins⟩ ⟨hv.calls, hv.begins rfl⟩, rfl⟩

theorem idle_conclude {r : ScenarioResult} (h : Ends (x.conclude c) l t (.ok r) l') :
    t.Idle ∧ r.steps = l.steps := by
  obtain ⟨stop, u, w, z, rfl, hs, ha, hz⟩ := parts_of_conclude h
  have hu := (ends_stopped hs).2.1
  obtain ⟨hidle, hr⟩ := idle_announce (by cases stop <;> simp) ha
  exact ⟨(Trace.idle_of_offstage hu).append (hidle.append (Trace.idle_of_offstage hz)), hr⟩

theorem closes_cleanUp (ha : a.nodes ≠ []) (ht : t.tame = true)
    (h : Ends (x.cleanUp c a) l t (.ok ()) l') :
    (∃ shown, List.Forall₂ (IsCallOf a (.scenario (c.scope (some shown)))) t.calls
      (x.applicable .afterScenario c a)) ∧ t.begins = false ∧ l'.steps = l.steps := by
  obtain ⟨n, shown, hcalls, _, hn⟩ := ends_cleanUp ha ht h
  rw [List.take_of_length_le (hn rfl)] at hcalls
  refine ⟨⟨shown, hcalls⟩, ?_, steps_cleanUp ha h⟩
  refine acts_unbegun.cleanUp ha trivial (fun l t o l' h => ?_) (fun _ _ => trivial) h
  exact (ends_transition h).2.begins rfl

theorem turns_proceedThrough {d : DispatchTable} (hd : d.Fit) (ho : x.Orderly c)
    (hw : x.watches = true) (h : Ends (x.proceedThrough c d) l t (.ok ()) l')
    (ht : t.Smooth requested) :
    ∃ u v ready rs, t = u ++ v ∧
      UpToFailure (IsCallOf d.arena (.scenario (c.scope none))) failing
        (x.applicable .beforeScenario c d.arena) u.invocations ready ∧ u.begins = false ∧
      TurnsIf (fun _ => True) (skippedStep c) (x.StepCourse c d.arena) c.scenario.steps.zipIdx ready
        (u.signal requested) v rs ∧ l'.steps = l.steps ++ rs := by
  cases proceedRun_of_ends h with
  | @proceeded t₁ t₂ t₃ ready _ l₂ _ hstage hhooks hsteps =>
    have ht₁ := (ends_transition hstage).2
    have hl₂ : l₂.steps = l.steps := keepsSteps_runHooks hd rfl hhooks
    obtain ⟨_, hsmooth⟩ := Trace.smooth_append.1 ht
    obtain ⟨hsmooth₂, hsmooth₃⟩ := Trace.smooth_append.1 hsmooth
    have hopen := upToFailure_runHookList hd.rooted binds_of_mem_applicable
      (ends_runHooks ho rfl hhooks) hsmooth₂.tame
    have hbegins : Trace.begins t₂ = false :=
      acts_unbegun.runHooks rfl hd.rooted trivial (fun _ => trivial) hhooks
    have hturns : ∃ rs, TurnsIf (fun _ => True) (skippedStep c) (x.StepCourse c d.arena)
        c.scenario.steps.zipIdx ready (Trace.signal (Trace.signal requested t₁) t₂) t₃ rs ∧
          l'.steps = l₂.steps ++ rs := by
      cases ready with
      | true =>
        obtain ⟨rs, hl', hturns⟩ := inTurn_runSteps hd ho hw hsteps hsmooth₃
        exact ⟨rs, hturns, hl'⟩
      | false =>
        obtain ⟨hidle, hl'⟩ := idle_skipAll (runSteps_skip d 0 c.scenario.steps ▸ hsteps)
        exact ⟨_, ⟨hidle, rfl⟩, hl'⟩
    obtain ⟨rs, hturns, hl'⟩ := hturns
    refine ⟨t₁ ++ t₂, t₃, ready, rs, (List.append_assoc ..).symm, ?_, ?_, ?_, ?_⟩
    · rw [Trace.invocations_append, Trace.invocations_eq_nil ht₁.calls]
      exact hopen
    · rw [Trace.begins_append, ht₁.begins rfl, hbegins]
      rfl
    · rw [Trace.signal_append]
      exact hturns
    · rw [hl', hl₂]

theorem bracket_runComposed {d : DispatchTable} {r : ScenarioResult} (hd : d.Fit) (ho : x.Orderly c)
    (hw : x.watches = true) (h : Ends (x.runComposed c d) Ledger.empty t (.ok r) l')
    (ht : t.Smooth requested) :
    Bracket (IsCallOf d.arena (.scenario (c.scope none))) failing
      (x.applicable .beforeScenario c d.arena)
      (TurnsIf (fun _ => True) (skippedStep c) (x.StepCourse c d.arena) c.scenario.steps.zipIdx)
      (fun shown => IsCallOf d.arena (.scenario (c.scope (some shown))))
      (x.applicable .afterScenario c d.arena) requested t r.steps := by
  obtain ⟨t₁, t₂, t₃, t₄, r₁, r₂, r₃, l₁, l₂, l₃, rfl, hproceed, hrecover, hclean, hend⟩ :=
    ends_runComposed h
  obtain ⟨ht₁, ht⟩ := Trace.smooth_append.1 ht
  obtain ⟨_, ht⟩ := Trace.smooth_append.1 ht
  obtain ⟨ht₃, _⟩ := Trace.smooth_append.1 ht
  obtain ⟨_, rfl⟩ := (runActs_onlyCutBySink.proceedThrough hd hproceed ho ht₁.tame).ok ht₁.taken
  obtain ⟨rfl, _, rfl⟩ := ends_pure_iff.1 hrecover
  obtain ⟨_, rfl, hconclude⟩ := hend.resolve_right fun hcut => nomatch hcut.2.2
  obtain ⟨u, v, ready, rs, rfl, hopen, hu, hturns, hl₁⟩ :=
    turns_proceedThrough hd ho hw hproceed ht₁
  obtain ⟨⟨shown, hclose⟩, ht₃, hl₃⟩ := closes_cleanUp hd.rooted ht₃.tame hclean
  obtain ⟨hidle, hr⟩ := idle_conclude hconclude
  obtain rfl : r.steps = rs := by
    rw [hr, hl₃, hl₁]
    rfl
  rw [List.nil_append, List.append_assoc]
  refine .intro shown hopen hu hturns ?_ ?_
  · rw [Trace.calls_append, hidle.1, List.append_nil]
    exact hclose
  · rw [Trace.begins_append, ht₃, hidle.2]
    rfl

theorem salvages_cleanUpSalvaged {salvaged : Option Arena}
    (ha : ∀ a, salvaged = some a → a.nodes ≠ []) (ht : t.tame = true)
    (h : Ends (x.cleanUpSalvaged c salvaged) l t (.ok ()) l') :
    x.Salvages c t.calls salvaged ∧ t.begins = false ∧ l'.steps = l.steps := by
  cases salvaged with
  | none =>
    obtain ⟨rfl, _, rfl⟩ := ends_pure_iff.1 h
    exact ⟨rfl, rfl, rfl⟩
  | some a => exact closes_cleanUp (ha a rfl) ht h

theorem salvages_abandon {cause : Fault} {salvaged : Option Arena} {r : ScenarioResult}
    (ha : ∀ a, salvaged = some a → a.nodes ≠ []) (ht : t.tame = true)
    (h : Ends (x.abandon c cause salvaged) Ledger.empty t (.ok r) l') :
    x.Salvages c t.calls salvaged ∧ t.begins = false ∧
      r.steps = c.scenario.steps.zipIdx.map (skippedStep c) := by
  obtain ⟨u, v, w, z, l₁, l₂, rfl, hoff, hskip, hclean, hannounce⟩ := ends_abandon h
  simp only [Trace.tame_append, Bool.and_eq_true] at ht
  have hu : Trace.Idle u := Trace.idle_of_offstage hoff
  have hv := idle_skipAll hskip
  obtain ⟨hcalls, hw, hl₂⟩ := salvages_cleanUpSalvaged ha ht.2.2.1 hclean
  obtain ⟨hz, hr⟩ := idle_announce (.inl rfl) hannounce
  refine ⟨?_, ?_, ?_⟩
  · simpa [hu.1, hv.1.1, hz.1] using hcalls
  · simp [hu.2, hv.1.2, hw, hz.2]
  · rw [hr, hl₂, hv.2]
    rfl

/-- A run whose records are all taken comes to a result, and it takes its course. -/
theorem scenarioCourse_of_run {scenario : Scenario} {feature : Option Feature} {id : Option String}
    {o : Except Fault ScenarioResult} (h : (x.run scenario feature id).Runs t o)
    (ho : x.Orderly (.named scenario feature id)) (hw : x.watches = true) (ht : t.Smooth false) :
    ∃ r, o = .ok r ∧ x.ScenarioCourse (.named scenario feature id) t r := by
  cases o with
  | error e =>
    obtain ⟨r, hr⟩ := raised_run h ho ht.tame
    cases Option.isNone_iff_eq_none.1 (List.all_eq_true.1 ht.taken _ hr)
  | ok r =>
    refine ⟨r, rfl, ?_⟩
    obtain ⟨l', hc⟩ := runs_run_iff.1 h
    cases caseRun_of_ends hc with
    | abandoned u v b hs ha hk =>
      obtain ⟨_, u₁, u₂, rfl, hoff, hu₁, _⟩ := ends_setUp hs
      have hidle : Trace.Idle u₂ := Trace.idle_of_offstage hoff
      have hsv := (Trace.smooth_append.1 ht).2
      obtain ⟨hcalls, hbegins, hsteps⟩ := salvages_abandon ha hsv.tame hk
      rw [List.append_assoc]
      refine .abandoned ⟨u₁ ++ u₂, v, _, (List.append_assoc ..).symm, hs⟩ hu₁ ?_ ?_ hsteps
      · rw [Trace.calls_append, hidle.1]
        exact hcalls
      · rw [Trace.begins_append, hidle.2, hbegins]
        rfl
    | composed u v d hs hd hk =>
      obtain ⟨_, u₁, u₂, rfl, hoff, hu₁, _⟩ := ends_setUp hs
      have hidle : Trace.Idle u₂ := Trace.idle_of_offstage hoff
      have hsv := (Trace.smooth_append.1 ht).2
      rw [Trace.signal_append] at hsv
      rw [List.append_assoc]
      exact .composed ⟨u₁ ++ u₂, v, _, (List.append_assoc ..).symm, hs⟩ hu₁
        (.precede hidle (bracket_runComposed hd ho hw hk hsv))

theorem Hands.complies {r : Record} {u : Trace} {e : Option Fault} (h : x.Hands r u e) :
    u.complies false = true := by
  cases h with
  | silent _ => rfl
  | loud e b _ => simp [Trace.complies]

theorem StepCourse.complies {p : Step × Nat} {r : StepResult} (h : x.StepCourse c a p t r) :
    t.complies false = true := by
  obtain ⟨u, v, rfl, hu, hv⟩ := h.course
  have hbegins : v.begins = false := by
    cases hv with
    | intro shown _ h₁ h₂ _ h₃ => rw [Trace.begins_append, Trace.begins_append, h₁, h₂.unbegun, h₃]; rfl
  rw [Trace.complies_append, hu.complies, Trace.complies_of_begins hbegins]
  rfl

/-- In the course of a scenario nothing is begun while an abort is requested. -/
theorem ScenarioCourse.complies {r : ScenarioResult} (h : x.ScenarioCourse c t r) :
    t.complies false = true := by
  cases h with
  | composed _ hu hv =>
    have hturns := hv.complies fun ready requested t rs h => h.complies fun p u r hp => hp.complies
    rw [Trace.complies_append, hu.complies, hturns]
    rfl
  | abandoned _ hu _ hv _ =>
    rw [Trace.complies_append, hu.complies, Trace.complies_of_begins hv]
    rfl

end Rehearsal.Executor
