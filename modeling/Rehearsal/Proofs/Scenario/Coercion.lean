import Rehearsal.Proofs.Scenario.Protocol

/-! What becomes of a run in which a capture cannot be coerced. Where the coercer raises a type or a value
error, or an error of matching itself, and wherever else matching fails, the step is to blame and the run
goes on to its result; so it is with errors of classes that extend these. Any other fault of a coercer leaves
the run, which then has no result. Nothing else does where records are taken, hooks can be chosen and what is
called does not exit. -/

namespace Rehearsal
set_option autoImplicit false

namespace Trace
variable {t u : Trace}

/-- No result of a hook before a step says that the hook failed. -/
def OpensWell (t : Trace) : Prop := ∀ r ∈ t.hooks, r.phase = .beforeStep → r.status ≠ .failed

theorem opensWell_of_hooks_nil (h : t.hooks = []) : t.OpensWell := by
  rw [OpensWell, h]
  exact List.forall_mem_nil _

theorem opensWell_append : OpensWell (t ++ u) ↔ t.OpensWell ∧ u.OpensWell := by
  rw [OpensWell, hooks_append, List.forall_mem_append]
  rfl

end Trace

namespace Executor
variable {x : Executor} {c : Case} {l l' : Ledger} {t : Trace}

/-- Hooks of every phase can be chosen for a case. -/
def Selects (x : Executor) (c : Case) : Prop :=
  ∀ phase, ∃ hooks, x.registry.lookup phase (some c.tags) = .ok hooks

/-- Finding a definition for a step ends in a fault that the step is not to blame for. -/
def Spills (x : Executor) (s : Step) (f : Fault) : Prop :=
  (x.matcher.matchText s.text x.registry.definitions).result = .error f ∧ isMatchFailure f = false

/-- Where finding a definition for a step fails, the step fails with that. -/
def Blames (x : Executor) (s : Step) (status : Status) (error : Option ErrorInfo) : Prop :=
  ∀ f, (x.matcher.matchText s.text x.registry.definitions).result = .error f →
    isMatchFailure f = true ∧ status = .failed ∧ error = some (.ofFault f "matcher" false)

/-- A step is started and no hook before it fails, so that a definition is looked for. -/
def Tries (c : Case) (e : Option StageEvent) (t : Trace) (n : Nat) : Prop :=
  stepEvent c n ∈ t.stages ∧ (t.during n e).OpensWell

theorem Spills.raises {s : Step} {f : Fault} (h : x.Spills s f) :
    x.matcher.Raises s.text x.registry.definitions f :=
  (Matcher.isMatchFailure_or_raises h.1).resolve_left fun hf => nomatch h.2.symm.trans hf

theorem Blames.not_spills {s : Step} {status : Status} {error : Option ErrorInfo} {f : Fault}
    (h : x.Blames s status error) : ¬ x.Spills s f :=
  fun hf => nomatch hf.2.symm.trans (h f hf.1).1

section Hooks
variable {phase : HookPhase} {a : Arena} {scope : Scope} {halt : Bool}

def HooksOf (phase : HookPhase) (_ : Ledger) (t : Trace) (_ : Option Fault) (_ : Ledger) : Prop :=
  ∀ r ∈ t.hooks, r.phase = phase

theorem hookActs_hooksOf : HookActs x c (HooksOf phase) (fun _ => True) (· = phase) where
  refl _ := List.forall_mem_nil _
  trans ht hu := by
    rw [HooksOf, Trace.hooks_append]
    exact List.forall_mem_append.2 ⟨ht, hu⟩
  offstage ht _ := by
    rw [HooksOf, Trace.hooks, Trace.records_of_offstage ht]
    exact List.forall_mem_nil _
  call callable args place _ := by
    intro l t o l' h
    obtain ⟨f, m, u, rfl, hu, _⟩ := ends_invoke h
    change Option Fault at f
    rw [HooksOf, Trace.hooks, Trace.records_of_call hu]
    exact List.forall_mem_nil _
  hook k f hk := by
    intro l t o l' h
    have hh := (ends_recordHook h).2
    generalize errorIn o = e at hh ⊢
    cases hh with
    | silent _ => exact List.forall_mem_nil _
    | loud e m _ => exact List.forall_mem_singleton.2 hk

variable (hs : x.Selects c) (ha : a.nodes ≠ []) (hscope : scope.tags = some c.tags)
include hs ha hscope

theorem phase_of_runHooks {o : Except Fault Bool}
    (h : Ends (x.runHooks phase c a scope halt) l t o l') : ∀ r ∈ t.hooks, r.phase = phase := by
  obtain ⟨hooks, hl⟩ := hs phase
  exact hookActs_hooksOf.runHooks (fun f hf => nomatch hl.symm.trans hf) hscope ha rfl
    (fun _ => trivial) h

theorem ok_of_runHooks {o : Except Fault Bool} (ht : t.tame = true) (hk : t.taken = true)
    (h : Ends (x.runHooks phase c a scope halt) l t o l') : ∃ clean, o = .ok clean := by
  obtain ⟨hooks, hl⟩ := hs phase
  have hup : Upholds (x.OnlyCutBySink True) (x.runHooks phase c a scope halt) :=
    hookActs_onlyCutBySink.runHooks (fun f hf => nomatch hl.symm.trans hf) hscope ha trivial
      fun _ => trivial
  exact (hup h trivial ht).ok hk

/-- The hooks before a step let it go on if the results of all of them say that they went well. -/
theorem ready_iff_opensWell {ready : Bool} (hx : x.emits = true) (ht : t.tame = true)
    (h : Ends (x.runHooks .beforeStep c a scope halt) l t (.ok ready) l') :
    ready = true ↔ t.OpensWell := by
  have hphase := phase_of_runHooks hs ha hscope h
  obtain ⟨hooks, hl⟩ := hs .beforeStep
  rw [runHooks, hscope, hl] at h
  obtain ⟨rfl, htold⟩ :=
    told_runHookList ha (fun _ hm => (List.mem_filter.1 hm).2) hx ht h
  have hall : (∀ b ∈ t.invocations.map (failing ·.2), b = false) ↔
      ∀ b ∈ t.hooks.map (·.status == .failed), b = false := by rw [htold]
  simp only [List.forall_mem_map, beq_eq_false_iff_ne] at hall
  simp only [List.all_eq_true, Bool.not_eq_true']
  exact hall.trans (forall₂_congr fun r hr => (imp_iff_right (hphase r hr)).symm)

end Hooks

section Step
variable {d : DispatchTable} {n : Nat} {s : Step} (hd : d.Fit)
  (hdefinitions : d.definitions = x.registry.definitions) (ht : t.tame = true)
include hd hdefinitions ht

theorem fares_dispatch {o : Except Fault Verdict} (h : Ends (x.dispatch c d s) l t o l') :
    (∃ v, o = .ok v ∧ x.Blames s v.status v.error) ∨ ∃ f, o = .error f ∧ x.Spills s f := by
  unfold Blames Spills
  rw [← hdefinitions]
  rcases ends_bind_iff.1 h with ⟨u, v, _, l₁, rfl, htell, hrest⟩ | ⟨f, rfl, htell⟩
  · rw [Trace.tame_append, Bool.and_eq_true] at ht
    dsimp only at hrest
    split at hrest
    · rename_i f hf
      rw [hf]
      split at hrest
      · rename_i hfail
        obtain ⟨rfl, rfl, rfl⟩ := ends_pure_iff.1 hrest
        refine .inl ⟨_, rfl, fun g hg => ?_⟩
        cases hg
        exact ⟨hfail, rfl, rfl⟩
      · rename_i hfail
        obtain ⟨rfl, rfl, rfl⟩ := ends_throw_iff.1 hrest
        exact .inr ⟨f, rfl, rfl, Bool.not_eq_true _ ▸ hfail⟩
    · rename_i hnone
      obtain ⟨_, _, _, hok⟩ := ends_undefinedVerdict hrest
      refine .inl ⟨_, hok ht.2, fun g hg => ?_⟩
      cases hnone.symm.trans hg
    · rename_i m hm
      have hlt : m.order < d.targets.length := by
        rw [hd.targeted]
        exact (List.getElem?_eq_some_iff.1 (Matcher.getElem?_order hm)).1
      rw [List.getElem?_eq_getElem hlt] at hrest
      obtain ⟨r, rfl, hcall⟩ := ends_bind_pure_iff.1 hrest
      obtain ⟨f, _, _, _, _, _, _, hok⟩ := ends_invoke hcall
      rw [hok ht.2]
      refine .inl ⟨_, rfl, fun g hg => ?_⟩
      cases hm.symm.trans hg
  · cases (ends_tell htell).2.2 ht

variable (hs : x.Selects c) (hx : x.emits = true) (hk : t.taken = true)
include hs hx hk

theorem fares_attempt {o : Except Fault Verdict} (h : Ends (x.attempt c d n s) l t o l') :
    (∃ v, o = .ok v ∧ (t.OpensWell → x.Blames s v.status v.error)) ∨
      ∃ f, o = .error f ∧ t.OpensWell ∧ x.Spills s f := by
  have htags : (stepScope c n s none).tags = some c.tags := rfl
  rcases ends_bind_iff.1 h with ⟨u, w, ready, l₁, rfl, hhooks, hrest⟩ | ⟨f, rfl, hhooks⟩
  · rw [Trace.tame_append, Bool.and_eq_true] at ht
    have hready := ready_iff_opensWell hs hd.rooted htags hx ht.1 hhooks
    cases ready with
    | true =>
      have hsilent : Trace.handed w = [] := acts_silent.dispatch hd (fun _ _ _ => trivial) hrest
      have hquiet : Trace.OpensWell w :=
        Trace.opensWell_of_hooks_nil (by rw [Trace.hooks, Trace.records, hsilent]; rfl)
      rcases fares_dispatch hd hdefinitions ht.2 hrest with ⟨v, rfl, hv⟩ | ⟨f, rfl, hf⟩
      · exact .inl ⟨v, rfl, fun _ => hv⟩
      · exact .inr ⟨f, rfl, Trace.opensWell_append.2 ⟨hready.1 rfl, hquiet⟩, hf⟩
    | false =>
      rw [if_neg Bool.false_ne_true, ends_get_bind_iff] at hrest
      obtain ⟨_, rfl, _⟩ := ends_pure_iff.1 hrest
      refine .inl ⟨_, rfl, fun hwell => ?_⟩
      cases hready.2 (Trace.opensWell_append.1 hwell).1
  · obtain ⟨_, hok⟩ := ok_of_runHooks hs hd.rooted htags ht hk hhooks
    cases hok

omit hdefinitions hx in
/-- The hooks after a step leave what it failed with. -/
theorem fares_review {v : Verdict} {o : Except Fault Verdict}
    (h : Ends (x.review c d n s v) l t o l') :
    t.OpensWell ∧ ∃ v', o = .ok v' ∧ (v.status = .failed → v' = v) := by
  have htags : (stepScope c n s (some (stepResult c n s v))).tags = some c.tags := rfl
  rcases ends_bind_iff.1 h with ⟨u, w, clean, l₁, rfl, hhooks, hrest⟩ | ⟨f, rfl, hhooks⟩
  · have hafter : Trace.OpensWell u := by
      intro r hr hbefore
      cases (phase_of_runHooks hs hd.rooted htags hhooks r hr).symm.trans hbefore
    split at hrest
    · rename_i hcase
      rw [ends_get_bind_iff] at hrest
      obtain ⟨rfl, rfl, _⟩ := ends_pure_iff.1 hrest
      rw [Bool.and_eq_true, bne_iff_ne] at hcase
      rw [List.append_nil]
      exact ⟨hafter, _, rfl, fun hfailed => absurd hfailed hcase.2⟩
    · obtain ⟨rfl, rfl, _⟩ := ends_pure_iff.1 hrest
      rw [List.append_nil]
      exact ⟨hafter, _, rfl, fun _ => rfl⟩
  · obtain ⟨_, hok⟩ := ok_of_runHooks hs hd.rooted htags ht hk hhooks
    cases hok

theorem fares_runStep {o : Except Fault StepResult} (h : Ends (x.runStep c d n s) l t o l') :
    (∃ r, o = .ok r ∧ (t.OpensWell → x.Blames s r.status r.error)) ∨
      ∃ f, o = .error f ∧ t.OpensWell ∧ x.Spills s f := by
  rcases ends_bind_iff.1 h with ⟨u, w, v, l₁, rfl, hattempt, hrest⟩ | ⟨f, rfl, hattempt⟩
  swap
  · rcases fares_attempt hd hdefinitions ht hs hx hk hattempt with ⟨_, hok, _⟩ | ⟨g, hg, hspills⟩
    · cases hok
    · exact .inr ⟨f, rfl, Except.error.inj hg ▸ hspills⟩
  rw [Trace.tame_append, Bool.and_eq_true] at ht
  rw [Trace.taken_append, Bool.and_eq_true] at hk
  have hv : Trace.OpensWell u → x.Blames s v.status v.error := by
    rcases fares_attempt hd hdefinitions ht.1 hs hx hk.1 hattempt with ⟨v', hok, hv⟩ | ⟨_, hok, _⟩
    · cases hok
      exact hv
    · cases hok
  rcases ends_bind_iff.1 hrest with ⟨w, z, v', l₂, rfl, hreview, hend⟩ | ⟨f, rfl, hreview⟩
  swap
  · obtain ⟨_, _, hok, _⟩ := fares_review hd ht.2 hs hk.2 hreview
    cases hok
  rw [Trace.tame_append, Bool.and_eq_true] at ht
  rw [Trace.taken_append, Bool.and_eq_true] at hk
  obtain ⟨_, v'', hok, hkept⟩ := fares_review hd ht.2.1 hs hk.2.1 hreview
  cases hok
  obtain ⟨r, rfl, hrecord⟩ := ends_bind_pure_iff.1 hend
  cases r with
  | error f => cases (cutBy_of_hands (ends_recordStep hrecord).2).eq_none hk.2.2
  | ok _ =>
    refine .inl ⟨_, rfl, fun hwell g hg => ?_⟩
    obtain ⟨hfail, hstatus, herror⟩ := hv (Trace.opensWell_append.1 hwell).1 g hg
    rw [hkept hstatus]
    exact ⟨hfail, hstatus, herror⟩

end Step

/-- How steps fare that are counted from `index` on. Each that is tried has a result that it is blamed
with, or one of them is tried and spills the fault that comes of them. -/
inductive Fare (x : Executor) (c : Case) (index : Nat) (ss : List Step) (e : Option StageEvent) (t : Trace)
    (l l' : Ledger) : Except Fault Unit → Prop where
  | through (rs : List StepResult) : l'.steps = l.steps ++ rs →
      (∀ (n : Nat) (s : Step), ss[n]? = some s → Tries c e t (index + n) →
        ∃ r, rs[n]? = some r ∧ x.Blames s r.status r.error) → Fare x c index ss e t l l' (.ok ())
  | spilled (n : Nat) (s : Step) (f : Fault) : ss[n]? = some s → Tries c e t (index + n) →
      x.Spills s f → Fare x c index ss e t l l' (.error f)

section Loop
variable {d : DispatchTable} {index : Nat} {skip : Bool} {s : Step} {ss : List Step} {u v w : Trace}
  {e : Option StageEvent}

/-- What comes before the stage of a step is no matter to it. -/
theorem tries_append_iff {n : Nat} (hu : u.stages = []) (he : e.bind (·.stepIndex) ≠ some (n : Int)) :
    Tries c e (u ++ t) n ↔ Tries c e t n := by
  rw [Tries, Tries, Trace.stages_append, hu, List.nil_append, Trace.during_append_of_ne hu he]

/-- What comes in another stage is no matter to a step. -/
theorem tries_staged_iff {stage : StageEvent} {n : Nat} (hx : x.emits = true)
    (hn : (some stage).bind (·.stepIndex) ≠ some (n : Int)) (hv : x.Hands (.stage stage) v none)
    (hw : w.stages = []) :
    Tries c e (v ++ (w ++ t)) n ↔ Tries c (some stage) t n := by
  have hstages : Trace.Follows none v [stage] := hv.follows hx
  have hne : stepEvent c (n : Int) ≠ stage := fun heq => hn (heq ▸ rfl)
  rw [Tries, Tries, Trace.stages_append, hstages.1, Trace.stages_append, hw, List.nil_append,
    List.singleton_append, List.mem_cons, or_iff_right hne, hv.during_append hx,
    Trace.during_append_of_ne hw hn]

theorem opensWell_of_tries (hx : x.emits = true) (hv : x.Hands (.stage (stepEvent c index)) v none)
    (hw : w.stages = []) (h : Tries c e (v ++ (w ++ t)) index) : w.OpensWell := by
  have hwell := h.2
  rw [hv.during_append hx, Trace.during_append_of_eq hw rfl] at hwell
  exact (Trace.opensWell_append.1 hwell).1

theorem tries_of_opensWell (hx : x.emits = true) (hv : x.Hands (.stage (stepEvent c index)) v none)
    (hw : w.stages = []) (h : w.OpensWell) : Tries c e (v ++ w) index := by
  have hstages : Trace.Follows none v [stepEvent c index] := hv.follows hx
  refine ⟨?_, ?_⟩
  · rw [Trace.stages_append, hstages.1, List.singleton_append]
    exact List.mem_cons_self
  · have hat : (some (stepEvent c index)).bind (·.stepIndex) = some (index : Int) := rfl
    rw [hv.during_append hx, Trace.during_of_stages_nil hw, if_pos hat]
    exact h

theorem Fare.pass {l₁ : Ledger} {r : StepResult} {o : Except Fault Unit} (hu : u.stages = [])
    (he : ∀ n : Nat, e.bind (·.stepIndex) ≠ some ((index + n : Nat) : Int))
    (hl : l₁.steps = l.steps ++ [r]) (hnot : o = .ok () → stepEvent c index ∉ t.stages)
    (h : x.Fare c (index + 1) ss e t l₁ l' o) : x.Fare c index (s :: ss) e (u ++ t) l l' o := by
  have hshift : ∀ n, index + (n + 1) = index + 1 + n := by omega
  cases h with
  | through rs hrs hall =>
    refine .through (r :: rs) (by rw [hrs, hl]; exact List.append_assoc ..) ?_
    intro n s' hn htries
    rw [tries_append_iff hu (he n)] at htries
    cases n with
    | zero => exact absurd htries.1 (hnot rfl)
    | succ n => exact hall n s' hn (hshift n ▸ htries)
  | spilled n s' f hn htries hf =>
    refine .spilled (n + 1) s' f hn ?_ hf
    rw [tries_append_iff hu (he _), hshift]
    exact htries

theorem Fare.cons {l₁ : Ledger} {r : StepResult} {o : Except Fault Unit} (hx : x.emits = true)
    (hu : u.stages = []) (he : ∀ n : Nat, e.bind (·.stepIndex) ≠ some ((index + n : Nat) : Int))
    (hv : x.Hands (.stage (stepEvent c index)) v none) (hw : w.stages = [])
    (hl : l₁.steps = l.steps ++ [r]) (hfirst : w.OpensWell → x.Blames s r.status r.error)
    (h : x.Fare c (index + 1) ss (some (stepEvent c index)) t l₁ l' o) :
    x.Fare c index (s :: ss) e (u ++ (v ++ (w ++ t))) l l' o := by
  have hshift : ∀ n, index + (n + 1) = index + 1 + n := by omega
  have hlater : ∀ n : Nat, Tries c e (u ++ (v ++ (w ++ t))) (index + (n + 1)) ↔
      Tries c (some (stepEvent c index)) t (index + 1 + n) := by
    intro n
    rw [tries_append_iff hu (he _), tries_staged_iff hx (stepIndex_stepEvent_ne (by omega)) hv hw,
      hshift]
  cases h with
  | through rs hrs hall =>
    refine .through (r :: rs) (by rw [hrs, hl]; exact List.append_assoc ..) ?_
    intro n s' hn htries
    cases n with
    | zero =>
      cases hn
      rw [tries_append_iff hu (he 0)] at htries
      exact ⟨r, rfl, hfirst (opensWell_of_tries hx hv hw htries)⟩
    | succ n => exact hall n s' hn ((hlater n).1 htries)
  | spilled n s' f hn htries hf => exact .spilled (n + 1) s' f hn ((hlater n).2 htries) hf

variable (hd : d.Fit) (hdefinitions : d.definitions = x.registry.definitions) (hs : x.Selects c)
  (hx : x.emits = true)
include hd hdefinitions hs hx

theorem fare_runSteps {o : Except Fault Unit} (ht : t.tame = true) (hk : t.taken = true)
    (he : ∀ j : Nat, e.bind (·.stepIndex) = some (j : Int) → j < index)
    (h : Ends (x.runSteps c d index skip ss) l t o l') : x.Fare c index ss e t l l' o := by
  induction ss generalizing l t index skip e with
  | nil =>
    obtain ⟨rfl, rfl, rfl⟩ := ends_pure_iff.1 h
    exact .through [] (List.append_nil _).symm fun _ _ hn => nomatch hn
  | cons s ss ih =>
    have hother : ∀ n : Nat, e.bind (·.stepIndex) ≠ some ((index + n : Nat) : Int) := by
      intro n hn
      have hlt := he _ hn
      omega
    cases ends_runSteps_cons h with
    | skips u v w l₁ hlooks hr hrest =>
      have huv : Trace.stages (u ++ v) = [] := by
        rw [Trace.stages_append, hlooks.stages, stages_of_skipStep hx hr]
        rfl
      obtain ⟨rfl, _⟩ := ends_recordStep hr
      simp only [Trace.tame_append, Trace.taken_append, Bool.and_eq_true] at ht hk
      -- The steps behind a skipped one announce stages of their own only.
      have hnot : o = .ok () → stepEvent c index ∉ w.stages := by
        rintro rfl hm
        obtain ⟨j, hj, heq⟩ := stages_runSteps hd hx hrest _ hm
        exact absurd (congrArg StageEvent.stepIndex heq) (stepIndex_stepEvent_ne (by omega))
      have hlater := ih ht.2.2 hk.2.2 (fun j hj => Nat.lt_succ_of_lt (he j hj)) hrest
      rw [← List.append_assoc]
      exact hlater.pass huv hother rfl hnot
    | skipRefused u v hlooks hr =>
      rw [Trace.taken_append, Bool.and_eq_true] at hk
      cases (cutBy_of_hands (ends_recordStep hr).2).eq_none hk.2
    | starts u v w z r l₁ hlooks hstage hr hrest =>
      obtain ⟨hl₁, _⟩ := listed_of_runStep hd hr
      simp only [Trace.tame_append, Trace.taken_append, Bool.and_eq_true] at ht hk
      have hfirst : w.OpensWell → x.Blames s r.status r.error := by
        rcases fares_runStep hd hdefinitions ht.2.2.1 hs hx hk.2.2.1 hr with ⟨_, hok, hr⟩ | ⟨_, hok, _⟩
        · cases hok
          exact hr
        · cases hok
      have hlater := ih ht.2.2.2 hk.2.2.2 (e := some (stepEvent c index)) (fun j hj => by
        by_contra hlt
        exact stepIndex_stepEvent_ne (by omega) hj) hrest
      exact hlater.cons hx hlooks.stages hother (ends_transition hstage).2
        (within_runStep hd hr).stages hl₁ hfirst
    | startRefused u v hlooks hstage =>
      rw [Trace.taken_append, Bool.and_eq_true] at hk
      cases (cutBy_of_hands (ends_transition hstage).2).eq_none hk.2
    | breaks u v w hlooks hstage hr =>
      have hw := (within_runStep hd hr).stages
      simp only [Trace.tame_append, Trace.taken_append, Bool.and_eq_true] at ht hk
      rcases fares_runStep hd hdefinitions ht.2.2 hs hx hk.2.2 hr with ⟨_, hok, _⟩ | ⟨f, hf, hwell, hspills⟩
      · cases hok
      · rw [Except.error.inj hf]
        refine .spilled 0 s f rfl ?_ hspills
        rw [tries_append_iff hlooks.stages (hother 0)]
        exact tries_of_opensWell hx (ends_transition hstage).2 hw hwell

theorem fare_proceedThrough {o : Except Fault Unit} (ht : t.tame = true) (hk : t.taken = true)
    (h : Ends (x.proceedThrough c d) l t o l') : x.Fare c 0 c.scenario.steps e t l l' o := by
  cases proceedRun_of_ends h with
  | refused t hstage => cases (cutBy_of_hands (ends_transition hstage).2).eq_none hk
  | halted u v hstage hhooks =>
    simp only [Trace.tame_append, Trace.taken_append, Bool.and_eq_true] at ht hk
    obtain ⟨_, hok⟩ := ok_of_runHooks hs hd.rooted rfl ht.2 hk.2 hhooks
    cases hok
  | @proceeded u v w ready _ l₂ _ hstage hhooks hsteps =>
    have hu : x.Hands (.stage (stageEvent c .runningBeforeHooks)) u none := (ends_transition hstage).2
    have hv : Trace.Within (stageEvent c .runningBeforeHooks) v := within_beforeHooks hd hhooks
    have hl₂ : l₂.steps = l.steps := keepsSteps_runHooks hd rfl hhooks
    simp only [Trace.tame_append, Trace.taken_append, Bool.and_eq_true] at ht hk
    have hfare := fare_runSteps hd hdefinitions hs hx ht.2.2 hk.2.2
      (e := some (stageEvent c .runningBeforeHooks)) (fun _ => nofun) hsteps
    have htries : ∀ n : Nat, Tries c e (u ++ (v ++ w)) n ↔
        Tries c (some (stageEvent c .runningBeforeHooks)) w n :=
      fun _ => tries_staged_iff hx stepIndex_stageEvent_ne hu hv.stages
    cases hfare with
    | through rs hrs hall =>
      exact .through rs (by rw [hrs, hl₂]) fun n s hn hn' => hall n s hn ((htries _).1 hn')
    | spilled n s f hn hn' hf => exact .spilled n s f hn ((htries _).2 hn') hf

end Loop

/-- How the steps of a scenario fare in the whole of a run. -/
inductive Outcome (x : Executor) (c : Case) (e : Option StageEvent) (t : Trace) :
    Except Fault ScenarioResult → Prop where
  | through (r : ScenarioResult) :
      (∀ (n : Nat) (s : Step), c.scenario.steps[n]? = some s → Tries c e t n →
        ∃ sr, r.steps[n]? = some sr ∧ x.Blames s sr.status sr.error) → Outcome x c e t (.ok r)
  | spilled (n : Nat) (s : Step) (f : Fault) : c.scenario.steps[n]? = some s → Tries c e t n →
      x.Spills s f → Outcome x c e t (.error f)

section Run
variable {e : Option StageEvent} (hs : x.Selects c) (hx : x.emits = true)
include hs hx

omit hx in
theorem ok_of_cleanUp {a : Arena} {o : Except Fault Unit} (ha : a.nodes ≠ []) (ht : t.tame = true)
    (hk : t.taken = true) (h : Ends (x.cleanUp c a) l t o l') : o = .ok () := by
  obtain ⟨hooks, hl⟩ := hs .afterScenario
  obtain ⟨_, rfl⟩ := (cutBy_cleanUp ha hl ht h).ok hk
  rfl

theorem outcome_runComposed {d : DispatchTable} {o : Except Fault ScenarioResult} (hd : d.Fit)
    (hdefinitions : d.definitions = x.registry.definitions)
    (hspill : ∀ s f, x.Spills s f → f.family ≠ .interrupt) (ht : t.tame = true) (hk : t.taken = true)
    (hl : l.steps = []) (h : Ends (x.runComposed c d) l t o l') : x.Outcome c e t o := by
  obtain ⟨t₁, t₂, t₃, t₄, r₁, r₂, r₃, l₁, l₂, l₃, rfl, hproceed, hrecover, hclean, hend⟩ :=
    ends_runComposed h
  simp only [Trace.tame_append, Trace.taken_append, Bool.and_eq_true] at ht hk
  obtain rfl := ok_of_cleanUp hs hd.rooted ht.2.2.1 hk.2.2.1 hclean
  have hafter : Trace.stages t₃ = [stageEvent c .runningAfterHooks] :=
    (follows_cleanUp hd.rooted hx hclean : Trace.Follows none t₃ _).1
  cases fare_proceedThrough (e := e) hd hdefinitions hs hx ht.1 hk.1 hproceed with
  | through rs hrs hall =>
    obtain ⟨rfl, hr, rfl⟩ := ends_pure_iff.1 hrecover
    cases hr
    obtain ⟨_, _, hconclude⟩ := hend.resolve_right fun hcut => by
      obtain ⟨_, _, f, _, hf | ⟨_, hf⟩⟩ := hcut <;> cases hf
    obtain ⟨r, rfl⟩ :=
      (closingActs_onlyCutBySink.conclude hconclude trivial ht.2.2.2).ok hk.2.2.2
    have hlast : Trace.stages t₄ = [stageEvent c r.stage] :=
      (follows_conclude (e := stageEvent c .runningAfterHooks) hx hconclude).1
    refine .through r fun n s hn htries => ?_
    have hstage : stepEvent c n ∈ Trace.stages t₁ := by
      have hmem := htries.1
      rw [List.nil_append, Trace.stages_append, Trace.stages_append, hlast, hafter] at hmem
      exact (List.mem_append.1 hmem).resolve_right (by simp [stepEvent, stageEvent])
    have hwell := htries.2
    rw [List.nil_append, Trace.during_append, Trace.opensWell_append] at hwell
    obtain ⟨sr, hsr, hblames⟩ := hall n s hn (by rw [Nat.zero_add]; exact ⟨hstage, hwell.1⟩)
    refine ⟨sr, ?_, hblames⟩
    rw [(idle_conclude hconclude).2, steps_cleanUp hd.rooted hclean, hrs, hl, List.nil_append]
    exact hsr
  | spilled n s f hn htries hf =>
    obtain ⟨_, hr, ⟨rfl, rfl, rfl, _⟩ | ⟨g, hg, hinterrupt, _⟩⟩ := ends_recover hrecover
    · cases hr
      obtain ⟨rfl, _, g, rfl, hg | ⟨_, hg⟩⟩ := hend.resolve_left fun hok => by cases hok.1
      · cases hg
      obtain rfl := Except.error.inj hg
      rw [Nat.zero_add] at htries
      refine .spilled n s f hn ⟨?_, ?_⟩ hf
      · rw [Trace.stages_append]
        exact List.mem_append_left _ htries.1
      · rw [List.nil_append, Trace.during_append, during_cleanUp hx hd.rooted (List.forall_mem_nil _) hclean,
          List.append_nil]
        exact htries.2
    · -- Only an interrupt is turned into a result here, and no coercer raises one.
      cases hg
      exact absurd hinterrupt (hspill s f hf)

omit hs in
/-- Where contexts could not be set up no step is started. -/
theorem not_tries_of_abandon {cause : Fault} {salvaged : Option Arena} {r : ScenarioResult} {n : Nat}
    {e' : Option StageEvent} (ha : ∀ a, salvaged = some a → a.nodes ≠ [])
    (h : Ends (x.abandon c cause salvaged) l t (.ok r) l') {u : Trace}
    (hu : u.stages = [stageEvent c .initializing]) : ¬ Tries c e' (u ++ t) n := by
  obtain ⟨t₁, t₂, t₃, t₄, l₁, l₂, rfl, hoff, hskip, hclean, hannounce⟩ := ends_abandon h
  have hlogged : Trace.stages t₁ = [] :=
    (Trace.within_of_offstage (e := stageEvent c .initializing) hoff).stages
  have hskipped : Trace.stages t₂ = [] :=
    (within_skipAll (e := stageEvent c .initializing) List.mem_cons_self hskip).stages
  obtain ⟨es, hes, hcleaned, _⟩ :=
    follows_cleanUpSalvaged (e := stageEvent c .initializing) ha hx hclean
  have hannounced : Trace.Follows none t₄ [stageEvent c .aborted] := follows_announce hx hannounce
  rintro ⟨hstaged, _⟩
  simp only [Trace.stages_append, hu, hlogged, hskipped, hcleaned, hannounced.1, List.nil_append] at hstaged
  rcases hes with rfl | rfl <;> simp [stepEvent, stageEvent] at hstaged

omit hx in
theorem exists_ok_of_abandon {b : Broken} {o : Except Fault ScenarioResult}
    (ha : ∀ a, b.salvaged = some a → a.nodes ≠ []) (ht : t.tame = true) (hk : t.taken = true)
    (h : Ends (x.abandon c b.fault b.salvaged) l t o l') : ∃ r, o = .ok r := by
  obtain ⟨hooks, hl⟩ := hs .afterScenario
  have hcut : Upholds (x.OnlyCutBySink True) (x.abandon c b.fault b.salvaged) :=
    onlyCutBySink_abandon_of_cleanUp fun a hb =>
      hookActs_onlyCutBySink.cleanUp (fun f hf => nomatch hl.symm.trans hf) (ha a hb) trivial
        (onlyCutBySink_stage _ _) fun _ _ => trivial
  exact (hcut h trivial ht).ok hk

theorem outcome_runCase {o : Except Fault ScenarioResult}
    (hspill : ∀ s f, x.Spills s f → f.family ≠ .interrupt) (ht : t.tame = true) (hk : t.taken = true)
    (h : Ends (x.runCase c) Ledger.empty t o l') : x.Outcome c none t o := by
  cases caseRun_of_ends h with
  | refused t hsetup =>
    obtain ⟨_, u, v, rfl, _, hu, _⟩ := ends_setUp hsetup
    rw [Trace.taken_append, Bool.and_eq_true] at hk
    cases (cutBy_of_hands hu).eq_none hk.1
  | escaped t hsetup he => cases he.symm.trans (contained_of_setUp hsetup ht)
  | abandoned u v b hsetup ha hv =>
    rw [Trace.tame_append, Bool.and_eq_true] at ht
    rw [Trace.taken_append, Bool.and_eq_true] at hk
    obtain ⟨r, rfl⟩ := exists_ok_of_abandon hs ha ht.2 hk.2 hv
    exact .through r fun n s _ htries =>
      absurd htries (not_tries_of_abandon hx ha hv (follows_setUp hx hsetup).1)
  | composed u v d hsetup hd hv =>
    rw [Trace.tame_append, Bool.and_eq_true] at ht
    rw [Trace.taken_append, Bool.and_eq_true] at hk
    obtain ⟨_, _, _, hdefinitions, _⟩ := exists_built_of_setUp hsetup
    have hu : Trace.stages u = [stageEvent c .initializing] := (follows_setUp hx hsetup).1
    have htries : ∀ n : Nat, Tries c none (u ++ v) n ↔
        Tries c (some (stageEvent c .initializing)) v n := by
      intro n
      have hnone : Trace.during n none u = [] :=
        Trace.during_eq_nil (by simp [hu, stageEvent]) (Option.some_ne_none _).symm
      have hne : stepEvent c (n : Int) ≠ stageEvent c .initializing := by simp [stepEvent, stageEvent]
      rw [Tries, Tries, Trace.stages_append, Trace.during_append, hnone, hu, List.singleton_append,
        List.mem_cons, or_iff_right hne, List.nil_append]
      rfl
    cases outcome_runComposed (e := some (stageEvent c .initializing)) hs hx hd hdefinitions hspill
      ht.2 hk.2 rfl hv with
    | through r hall => exact .through r fun n s hn hn' => hall n s hn ((htries n).1 hn')
    | spilled n s f hn hn' hf => exact .spilled n s f hn ((htries n).2 hn') hf

end Run

/-- A run that meets no refusal has a result just if none of the steps that are tried spills. If one does,
the run ends in its fault, which is one that a coercer raised. Any other failure of the matching that a
tried step meets is what this step fails with in the result. -/
theorem returns_iff_not_spills {scenario : Scenario} {feature : Option Feature} {id : Option String}
    {o : Except Fault ScenarioResult} (h : (x.run scenario feature id).Runs t o)
    (hs : x.Selects (.named scenario feature id))
    (hc : ∀ name coercer text f, x.matcher.coercions name = some coercer → coercer text = .error f →
      Composition.escapes f = false)
    (ht : t.tame = true) (hk : t.taken = true) :
    ∃ full, x.Voiced t full ∧ (x.loud.run scenario feature id).Runs full o ∧
      ((∃ r, o = .ok r) ↔ ∀ (n : Nat) (s : Step) (f : Fault), scenario.steps[n]? = some s →
        Tries (.named scenario feature id) none full n → ¬ x.Spills s f) ∧
      (∀ f, o = .error f → ∃ (n : Nat) (s : Step), scenario.steps[n]? = some s ∧
        Tries (.named scenario feature id) none full n ∧ x.Spills s f ∧
        x.matcher.Raises s.text x.registry.definitions f) ∧
      ∀ r, o = .ok r → ∀ (n : Nat) (s : Step) (f : Fault), scenario.steps[n]? = some s →
        Tries (.named scenario feature id) none full n →
        (x.matcher.matchText s.text x.registry.definitions).result = .error f →
        ∃ sr, r.steps[n]? = some sr ∧ sr.status = .failed ∧
          sr.error = some (.ofFault f "matcher" false) := by
  obtain ⟨full, hvoiced, hfull⟩ := exists_voiced_of_runs h
  have hs' : x.loud.Selects (.named scenario feature id) := hs
  have hspill : ∀ s f, x.loud.Spills s f → f.family ≠ .interrupt := by
    -- What a step spills is what a coercer raised.
    intro s f hf hfamily
    obtain ⟨_, _, _, _, _, coercer, _, _, hcoercer, hraised, _⟩ := hf.raises
    have hescapes := hc _ coercer _ f hcoercer hraised
    simp [Composition.escapes, hfamily] at hescapes
  have htame := Trace.tame_of_unspoken hvoiced.rest ht
  obtain ⟨l', hcase⟩ := runs_run_iff.1 hfull
  refine ⟨full, hvoiced, hfull, ?_⟩
  cases outcome_runCase (x := x.loud) hs' rfl hspill htame (hvoiced.taken_of_taken hk) hcase with
  | through r hall =>
    refine ⟨iff_of_true ⟨r, rfl⟩ ?_, ?_, ?_⟩
    · intro n s f hn htries hspills
      obtain ⟨sr, _, hblames⟩ := hall n s hn htries
      exact hblames.not_spills hspills
    · intro f hf
      cases hf
    · intro r' hr n s f hn htries hf
      cases hr
      obtain ⟨sr, hsr, hblames⟩ := hall n s hn htries
      exact ⟨sr, hsr, (hblames f hf).2⟩
  | spilled n s f hn htries hf =>
    have hnot : ¬ ∃ r, (.error f : Except Fault ScenarioResult) = .ok r := by
      rintro ⟨r, hr⟩
      cases hr
    refine ⟨iff_of_false hnot fun hnone => hnone n s f hn htries hf, ?_, ?_⟩
    · intro g hg
      cases hg
      exact ⟨n, s, hn, htries, hf, Spills.raises hf⟩
    · intro r hr
      cases hr

/-- The first step passes. What the second one captures is not understood, and the run is lost. -/
theorem returns_iff_not_spills_sample :
    let f := Fault.ofKind "RuntimeError" "no such day"
    let calendar : Coercer := fun text => if text = "it is booked" then .error f else .ok .null
    let x := { Sample.executor [] with
      registry := ⟨[{ Sample.clerk 1 "book" with owner := none }], [], true⟩
      matcher := ⟨fun _ => some calendar, .error, true⟩ }
    let w := Sample.surroundings (fun _ => none) fun _ => none
    let t := w.traceOf (x.run Sample.scenario none none)
    t.taken = true ∧ t.steps.map (·.status) = [.passed] ∧
      w.resultOf (x.run Sample.scenario none none) = .error f ∧
      ∃ (n : Nat) (s : Step), Sample.scenario.steps[n]? = some s ∧
        Tries (.named Sample.scenario none none) none t n ∧ x.Spills s f := by
  intro f calendar x w t
  have hc : compose x.root = _ := compose_leaf ..
  have hseen : t.taken = true ∧ t.steps.map (·.status) = [.passed] ∧
      w.resultOf (x.run Sample.scenario none none) = .error f := by
    unfold t Surroundings.traceOf Surroundings.resultOf Executor.run Executor.runCase Executor.setUp
    rw [hc]
    exact ⟨by decide +kernel, by decide +kernel, by rfl⟩
  have hs : x.Selects (.named Sample.scenario none none) :=
    fun _ => ⟨_, Registry.lookup_of_unfiltered (List.forall_mem_nil _)⟩
  have hcontained : ∀ name coercer text g, x.matcher.coercions name = some coercer →
      coercer text = .error g → Composition.escapes g = false := by
    intro name coercer text g hcoercer hraised
    cases hcoercer
    unfold calendar at hraised
    split at hraised
    · cases hraised
      rfl
    · cases hraised
  have ht : t.tame = true := Surroundings.tame_traceOf _ (Sample.tame nofun)
  obtain ⟨full, hvoiced, _, _, hlost, _⟩ :=
    returns_iff_not_spills (w.runs_traceOf _) hs hcontained ht hseen.1
  obtain ⟨n, s, hn, htries, hspills, _⟩ := hlost f hseen.2.2
  rw [hvoiced.same rfl] at htries
  exact ⟨hseen.1, hseen.2.1, hseen.2.2, n, s, hn, htries, hspills⟩

end Executor
end Rehearsal
