import Rehearsal.Proofs.Construction
import Rehearsal.Proofs.Scenario.StepCall
import Rehearsal.Proofs.Surroundings

/-! Which callable a step is given. Definitions are known by their place in the registry, contexts by
their place in the tree, and steps by the stage in which they are called; the three are kept apart. A step
is called once at most, and what is called is what its text finds, on the context of the owner. -/

namespace Rehearsal
set_option autoImplicit false

def Moment.stepInvocation? : Moment Request.Answer Bool → Option Call := callIf? Call.isStep

/-- The calls of steps, each with the index of its step. -/
def Trace.stepInvocations (t : Trace) : List (Option Int × Call) :=
  t.located Moment.stepInvocation? none

/-- Calls belong to some of the steps that are counted from `index` on, and no two to the same. -/
structure Routed (P : Step → Call → Prop) (index : Nat) (ss : List Step)
    (ks : List (Option Int × Call)) : Prop where
  distinct : (ks.map (·.1)).Nodup
  routed : ∀ i k, (i, k) ∈ ks →
    ∃ (n : Nat) (s : Step), i = some (((index + n : Nat)) : Int) ∧ ss[n]? = some s ∧ P s k

namespace Routed
variable {P : Step → Call → Prop} {index : Nat} {s : Step} {ss : List Step}
  {ks : List (Option Int × Call)}

theorem nil : Routed P index ss [] := ⟨List.nodup_nil, nofun⟩

theorem pass (h : Routed P (index + 1) ss ks) : Routed P index (s :: ss) ks := by
  refine ⟨h.distinct, ?_⟩
  intro i k hk
  obtain ⟨n, s', hi, hs, hP⟩ := h.routed i k hk
  refine ⟨n + 1, s', ?_, hs, hP⟩
  rw [hi]
  congr 2
  omega

theorem cons {k : Call} (hk : P s k) (h : Routed P (index + 1) ss ks) :
    Routed P index (s :: ss) ((some (index : Int), k) :: ks) := by
  constructor
  · rw [List.map_cons, List.nodup_cons]
    refine ⟨?_, h.distinct⟩
    intro hm
    obtain ⟨⟨i, k'⟩, hmem, hi⟩ := List.mem_map.1 hm
    obtain ⟨n, _, hi', _⟩ := h.routed i k' hmem
    rw [show i = some (index : Int) from hi, Option.some.injEq] at hi'
    omega
  · intro i k' hm
    rcases List.mem_cons.1 hm with he | hm
    · cases he
      exact ⟨0, s, by simp, rfl, hk⟩
    · exact h.pass.routed i k' hm

end Routed

namespace Executor
variable {x : Executor} {c : Case} {l l' : Ledger} {t : Trace}

/-- In the run that a trace tells of, the contexts of a case were set up: these, in preorder. -/
def Builds (x : Executor) (c : Case) (t : Trace) (built : List Instance) : Prop :=
  ∃ (u v : Trace) (d : DispatchTable) (l : Ledger), t = u ++ v ∧
    Ends (x.setUp c) Ledger.empty u (.ok (.ok d)) l ∧
    u.constructions = List.zipWith (fun s i => (s.factory, .ok i)) x.root.contexts built ∧
    built.length = x.root.contexts.length ∧ (x.root.contexts.map (·.aliasName)).Nodup

/-- A step is dispatched to a callable: that of the definition that matching selects for its text. It
receives the context of the definition's owner, the captures in the order of their groups, and the table
or docstring of the step if there is one. -/
inductive Dispatches (x : Executor) (built : List Instance) (s : Step) : Call → Prop where
  | intro {m : StepMatch} {groups : List (Option String)} {j : Nat} {i : Instance} :
      (x.matcher.matchText s.text x.registry.definitions).result = .ok (some m) →
      x.registry.definitions[m.order]? = some m.definition →
      m.definition.pattern.fullMatch? s.text = some groups →
      List.Forall₂ (fun p a => x.matcher.coercions.coerceOne m.definition.source
        (CoercionTable.typeName m.definition.types p.2 x.matcher.autoCoerce) p.1 = .ok a) groups.zipIdx
        m.args →
      ContextSpec.OwnerAt x.root.contexts m.definition.owner j → built[j]? = some i →
      Dispatches x built s ⟨m.definition.callable, .value i.value :: (m.args.map .value ++
        if s.argument.isNull then [] else [.value s.argument])⟩

theorem Hands.constructions {r : Record} {e : Option Fault} (h : x.Hands r t e) :
    t.constructions = [] := by cases h <;> rfl

/-- What is set up is what was constructed, and each definition has the context of its owner. -/
theorem exists_built_of_setUp {d : DispatchTable} (h : Ends (x.setUp c) l t (.ok (.ok d)) l') :
    ∃ built : List Instance,
      t.constructions = List.zipWith (fun s i => (s.factory, .ok i)) x.root.contexts built ∧
      d.arena.Holds x.root.contexts built ∧ d.definitions = x.registry.definitions ∧
      List.Forall₂ (fun e i => d.arena.ownerInstance e.owner = .ok i) d.definitions d.targets := by
  obtain ⟨_, u, v, rfl, hu, ⟨⟨f, hf⟩, _⟩ | ⟨q, hc, hr⟩⟩ := composes_of_setUp h
  · cases hf
  have hr := Except.ok.inj hr
  rcases q with b | a
  · cases hr
  rw [Except.bind] at hr
  cases hd : DispatchTable.build x.registry a with
  | error f =>
    rw [hd] at hr
    cases hr
  | ok d' =>
    rw [hd] at hr
    cases hr
    obtain ⟨rfl, hdefinitions, htargets⟩ := DispatchTable.build_eq_ok hd
    obtain ⟨built, hbuilt, hholds⟩ := holds_of_compose hc
    refine ⟨built, ?_, hholds, hdefinitions, htargets⟩
    rw [Trace.constructions_append, hu.constructions, hbuilt, List.nil_append]

theorem dispatches_of_target {d : DispatchTable} {built : List Instance} {s : Step} {m : StepMatch}
    {i : Instance} (ha : d.arena.Holds x.root.contexts built)
    (hd : d.definitions = x.registry.definitions)
    (ht : List.Forall₂ (fun e i => d.arena.ownerInstance e.owner = .ok i) d.definitions d.targets)
    (hm : (x.matcher.matchText s.text d.definitions).result = .ok (some m))
    (hi : d.targets[m.order]? = some i) :
    x.Dispatches built s ⟨m.definition.callable, stepArguments i m.args s.argument⟩ := by
  have horder := Matcher.getElem?_order hm
  have howner : d.arena.ownerInstance m.definition.owner = .ok i := by
    obtain ⟨hlt, hdef⟩ := List.getElem?_eq_some_iff.1 horder
    obtain ⟨hlt', htarget⟩ := List.getElem?_eq_some_iff.1 hi
    have hat := ht.get hlt hlt'
    rwa [List.get_eq_getElem, List.get_eq_getElem, hdef, htarget] at hat
  obtain ⟨j, hj, hbuilt⟩ := ha.ownerAt howner
  obtain ⟨groups, hgroups, hargs⟩ := Matcher.captures_of_matchText hm
  rw [hd] at hm horder
  rw [stepArguments_eq]
  exact .intro hm horder hgroups hargs hj hbuilt

theorem blind_stepInvocation : Blind Moment.stepInvocation? := blind_callIf Call.isStep

theorem acts_uninvoked : Acts x c (Unseen Moment.stepInvocation?)
    (fun args => ∀ k, Call.isStep ⟨k, args⟩ = false) (fun _ => True) := acts_callIf Call.isStep

/-- At most one call is seen in a part of a run, and it is as it should be. -/
def SeesOne (P : Call → Prop) (t : Trace) : Prop :=
  t.filterMap Moment.stepInvocation? = [] ∨ ∃ k, t.filterMap Moment.stepInvocation? = [k] ∧ P k

section Steps
variable {d : DispatchTable} {P : Step → Call → Prop}
  (hP : ∀ {s : Step} {m : StepMatch} {i : Instance},
    (x.matcher.matchText s.text d.definitions).result = .ok (some m) → d.targets[m.order]? = some i →
      P s ⟨m.definition.callable, stepArguments i m.args s.argument⟩)
include hP

theorem seesOne_dispatch {s : Step} {o : Except Fault Verdict} (h : Ends (x.dispatch c d s) l t o l') :
    SeesOne (P s) t := by
  rcases ends_dispatch h with ⟨_, hoff, _⟩ | ⟨m, i, u, v, r, hm, hi, rfl, hu, hcall, _⟩
  · exact .inl (blind_stepInvocation.aside hoff)
  · obtain ⟨f, b, w, rfl, hw, _⟩ := ends_invoke hcall
    have hstep : Call.isStep ⟨m.definition.callable, stepArguments i m.args s.argument⟩ = true :=
      isValue_stepArguments ..
    refine .inr ⟨_, ?_, hP hm hi⟩
    rw [List.filterMap_append, blind_stepInvocation.aside hu, List.nil_append, List.filterMap_cons,
      blind_stepInvocation.aside hw, Moment.stepInvocation?, Moment.callIf?, Moment.call?,
      Option.filter_some_pos hstep]

theorem seesOne_attempt {index : Nat} {s : Step} {o : Except Fault Verdict} (hd : d.Fit)
    (h : Ends (x.attempt c d index s) l t o l') : SeesOne (P s) t := by
  have hhooks : Upholds (Unseen Moment.stepInvocation?)
      (x.runHooks .beforeStep c d.arena (stepScope c index s none) true) :=
    acts_uninvoked.runHooks rfl hd.rooted trivial fun _ _ => rfl
  rcases ends_bind_iff.1 h with ⟨u, v, ready, l₁, rfl, hh, hk⟩ | ⟨e, rfl, hh⟩
  · have hu : u.filterMap Moment.stepInvocation? = [] := hhooks hh
    have hv : SeesOne (P s) v := by
      split at hk
      · exact seesOne_dispatch hP hk
      · rw [ends_get_bind_iff] at hk
        obtain ⟨rfl, _⟩ := ends_pure_iff.1 hk
        exact .inl rfl
    rwa [SeesOne, List.filterMap_append, hu, List.nil_append]
  · exact .inl (hhooks hh)

/-- The hooks after a step and its result are no calls of it. -/
theorem seesOne_runStep {index : Nat} {s : Step} {o : Except Fault StepResult} (hd : d.Fit)
    (h : Ends (x.runStep c d index s) l t o l') : SeesOne (P s) t := by
  rcases ends_bind_iff.1 h with ⟨u, v, verdict, l₁, rfl, ha, hk⟩ | ⟨e, rfl, ha⟩
  · have hu := seesOne_attempt hP hd ha
    have hv : v.filterMap Moment.stepInvocation? = [] := by
      have A := acts_uninvoked (x := x) (c := c)
      have hrest : Upholds (Unseen Moment.stepInvocation?) (do
          let verdict ← x.review c d index s verdict
          x.recordStep (stepResult c index s verdict)
          return stepResult c index s verdict) := by
        refine upholds_bind A.toSequential (A.review hd trivial fun _ _ _ => rfl) fun v' => ?_
        exact upholds_bind A.toSequential blind_stepInvocation.silent.recordStep fun _ =>
          upholds_pure A.toSequential _
      exact hrest hk
    rwa [SeesOne, List.filterMap_append, hv, List.append_nil]
  · exact seesOne_attempt hP hd ha

/-- Each call of the loop over the steps is one of the step whose stage was announced last. -/
theorem routed_runSteps {index : Nat} {skip : Bool} {ss : List Step} {e : Option StageEvent}
    {o : Except Fault Unit} (hd : d.Fit) (hx : x.emits = true)
    (h : Ends (x.runSteps c d index skip ss) l t o l') :
    Routed P index ss (t.located Moment.stepInvocation? e) := by
  induction ss generalizing l t index skip e with
  | nil =>
    obtain ⟨rfl, _⟩ := ends_pure_iff.1 h
    exact .nil
  | cons s ss ih =>
    have hpass : ∀ {u v : Trace} {e : Option StageEvent}, u.filterMap Moment.stepInvocation? = [] →
        Routed P index (s :: ss) (v.located Moment.stepInvocation? (u.stages.getLast?.or e)) →
          Routed P index (s :: ss) (Trace.located Moment.stepInvocation? e (u ++ v)) := by
      intro u v e hu hv
      rwa [Trace.located_append, Trace.located_eq_nil hu, List.nil_append]
    have hnone : ∀ {u : Trace} {e : Option StageEvent}, u.filterMap Moment.stepInvocation? = [] →
        Routed P index (s :: ss) (u.located Moment.stepInvocation? e) := by
      intro u e hu
      rw [Trace.located_eq_nil hu]
      exact .nil
    -- The step has at most one call, and those that follow are calls of later steps.
    have hcall : ∀ {v w : Trace} {ks : List (Option Int × Call)} {e : Option StageEvent},
        Ends (x.transition c .runningStep (some (index : Int))) l v (.ok ()) l → SeesOne (P s) w →
          w.stages = [] → Routed P (index + 1) ss ks → Routed P index (s :: ss)
            (w.located Moment.stepInvocation? (v.stages.getLast?.or e) ++ ks) := by
      intro v w ks e hstage hw hstages hks
      have hv : Trace.Follows none v [stepEvent c index] := (ends_transition hstage).2.follows hx
      rw [Trace.located_of_stages_nil hstages, hv.1]
      rcases hw with hw | ⟨k, hw, hk⟩
      · rw [hw]
        exact hks.pass
      · rw [hw]
        exact hks.cons hk
    cases ends_runSteps_cons h with
    | skips u v w l₁ hs hr hrest =>
      apply hpass (blind_stepInvocation.aside hs.offstage)
      exact hpass (blind_stepInvocation.silent.recordStep hr) (ih hrest).pass
    | skipRefused u v hs hr =>
      apply hpass (blind_stepInvocation.aside hs.offstage)
      exact hnone (blind_stepInvocation.silent.recordStep hr)
    | starts u v w z r l₁ hs hstage hr hrest =>
      apply hpass (blind_stepInvocation.aside hs.offstage)
      apply hpass (blind_stepInvocation.silent.transition hstage)
      rw [Trace.located_append]
      exact hcall hstage (seesOne_runStep hP hd hr) (within_runStep hd hr).stages (ih hrest)
    | startRefused u v hs hstage =>
      apply hpass (blind_stepInvocation.aside hs.offstage)
      exact hnone (blind_stepInvocation.silent.transition hstage)
    | breaks u v w hs hstage hr =>
      apply hpass (blind_stepInvocation.aside hs.offstage)
      apply hpass (blind_stepInvocation.silent.transition hstage)
      rw [← List.append_nil (Trace.located _ _ w)]
      exact hcall hstage (seesOne_runStep hP hd hr) (within_runStep hd hr).stages .nil

theorem routed_proceedThrough {e : Option StageEvent} {o : Except Fault Unit} (hd : d.Fit)
    (hx : x.emits = true) (h : Ends (x.proceedThrough c d) l t o l') :
    Routed P 0 c.scenario.steps (t.located Moment.stepInvocation? e) := by
  have hhooks : Upholds (Unseen Moment.stepInvocation?)
      (x.runHooks .beforeScenario c d.arena (.scenario (c.scope none)) true) :=
    acts_uninvoked.runHooks rfl hd.rooted trivial fun _ _ => rfl
  have hstaged : Upholds (Unseen Moment.stepInvocation?) (x.transition c .runningBeforeHooks none) :=
    blind_stepInvocation.silent.transition
  cases proceedRun_of_ends h with
  | refused t hstage =>
    rw [Trace.located_eq_nil (hstaged hstage)]
    exact .nil
  | halted u v hstage hr =>
    rw [Trace.located_append, Trace.located_eq_nil (hstaged hstage), List.nil_append,
      Trace.located_eq_nil (hhooks hr)]
    exact .nil
  | proceeded u v w hstage hr hsteps =>
    rw [Trace.located_append, Trace.located_eq_nil (hstaged hstage), List.nil_append,
      Trace.located_append, Trace.located_eq_nil (hhooks hr), List.nil_append]
    exact routed_runSteps hP hd hx hsteps

/-- What comes after the steps calls none of them. -/
theorem routed_runComposed {e : Option StageEvent} {o : Except Fault ScenarioResult} (hd : d.Fit)
    (hx : x.emits = true) (h : Ends (x.runComposed c d) l t o l') :
    Routed P 0 c.scenario.steps (t.located Moment.stepInvocation? e) := by
  obtain ⟨t₁, t₂, t₃, t₄, r₁, r₂, r₃, l₁, l₂, l₃, rfl, hproceed, hrecover, hclean, hend⟩ :=
    ends_runComposed h
  have h₂ : t₂.filterMap Moment.stepInvocation? = [] := blind_stepInvocation.silent.recover hrecover
  have h₃ : t₃.filterMap Moment.stepInvocation? = [] :=
    acts_uninvoked.cleanUp hd.rooted trivial blind_stepInvocation.silent.transition
      (fun _ _ _ => rfl) hclean
  have h₄ : t₄.filterMap Moment.stepInvocation? = [] := by
    rcases hend with ⟨_, _, hconclude⟩ | ⟨rfl, _⟩
    · exact blind_stepInvocation.silent.closing.conclude hconclude
    · rfl
  have hrest : (t₂ ++ (t₃ ++ t₄)).filterMap Moment.stepInvocation? = [] := by
    rw [List.filterMap_append, List.filterMap_append, h₂, h₃, h₄]
    rfl
  rw [Trace.located_append, Trace.located_eq_nil hrest, List.append_nil]
  exact routed_proceedThrough hP hd hx hproceed

end Steps

theorem unseen_abandon {cause : Fault} {salvaged : Option Arena} {o : Except Fault ScenarioResult}
    (ha : ∀ a, salvaged = some a → a.nodes ≠ []) (h : Ends (x.abandon c cause salvaged) l t o l') :
    t.filterMap Moment.stepInvocation? = [] := by
  have S := blind_stepInvocation.silent (x := x)
  have habandon : Upholds (fun _ t _ _ => t.filterMap Moment.stepInvocation? = [])
      (x.abandon c cause salvaged) := by
    refine upholds_abandon S.sequential (fun level message fields => ?_) S.skipAll ?_
      S.closing.announce
    · intro l t o l' h
      exact S.aside (Effect.ends_log h).2.1
    · exact acts_uninvoked.cleanUpSalvaged ha trivial S.transition fun _ _ _ => rfl
  exact habandon h

/-- In every run each step is called once at most, in its own stage; whatever is called was dispatched
to it, on contexts that were all set up. -/
theorem dispatches_of_run {scenario : Scenario} {feature : Option Feature} {id : Option String}
    {o : Except Fault ScenarioResult} (h : (x.run scenario feature id).Runs t o) :
    ∃ full : Trace, x.Voiced t full ∧ (x.loud.run scenario feature id).Runs full o ∧
      (full.stepInvocations.map (·.1)).Nodup ∧
      ∀ i k, (i, k) ∈ full.stepInvocations → ∃ (n : Nat) (s : Step) (built : List Instance),
        i = some (n : Int) ∧ scenario.steps[n]? = some s ∧
        x.loud.Builds (.named scenario feature id) full built ∧ x.Dispatches built s k := by
  obtain ⟨full, hvoiced, hfull⟩ := exists_voiced_of_runs h
  refine ⟨full, hvoiced, hfull, ?_⟩
  suffices hrouted : ∃ built : List Instance,
      Routed (fun s k => x.loud.Builds (.named scenario feature id) full built ∧ x.Dispatches built s k)
        0 scenario.steps full.stepInvocations by
    obtain ⟨built, hdistinct, hrouted⟩ := hrouted
    refine ⟨hdistinct, ?_⟩
    intro i k hk
    obtain ⟨n, s, hi, hs, hbuilds, hdispatches⟩ := hrouted i k hk
    rw [Nat.zero_add] at hi
    exact ⟨n, s, built, hi, hs, hbuilds, hdispatches⟩
  obtain ⟨l', hc⟩ := runs_run_iff.1 hfull
  have S := blind_stepInvocation.silent (x := x.loud)
  have hnone : ∀ {t : Trace} {P : Step → Call → Prop}, t.filterMap Moment.stepInvocation? = [] →
      Routed P 0 scenario.steps t.stepInvocations := by
    intro t P ht
    rw [Trace.stepInvocations, Trace.located_eq_nil ht]
    exact .nil
  cases caseRun_of_ends hc with
  | refused t hs => exact ⟨[], hnone (S.setUp hs)⟩
  | escaped t hs _ => exact ⟨[], hnone (S.setUp hs)⟩
  | abandoned u v b hs ha hk => exact ⟨[], hnone (S.append (S.setUp hs) (unseen_abandon ha hk))⟩
  | composed u v d hs hd hk =>
    have hu : u.filterMap Moment.stepInvocation? = [] := S.setUp hs
    obtain ⟨built, hbuilt, hholds, hdefinitions, htargets⟩ := exists_built_of_setUp hs
    refine ⟨built, ?_⟩
    have hbuilds : x.loud.Builds (.named scenario feature id) (u ++ v) built :=
      ⟨u, v, d, _, rfl, hs, hbuilt, hholds.length_eq, hholds.aliases ▸ hholds.distinct⟩
    rw [Trace.stepInvocations, Trace.located_append, Trace.located_eq_nil hu, List.nil_append]
    refine routed_runComposed (x := x.loud) ?_ hd rfl hk
    intro s m i hm hi
    exact ⟨hbuilds, dispatches_of_target hholds hdefinitions htargets hm hi⟩

end Executor

namespace Sample

/-- A hotel with a desk. -/
def hotel : ContextSpec :=
  ⟨⟨callable 0 "Hotel", "Hotel", [], none⟩, "main", .dict [], [],
    [.leaf ⟨callable 9 "Desk", "Desk", [], none⟩ "desk"]⟩

theorem compose_hotel :
    compose hotel = Composition.composeFrom Arena.empty (hotel.preorder none) := by
  have hvalid : ContextSpec.validateFrom [] hotel.contexts = .ok hotel.contexts := rfl
  exact compose_eq_composeFrom hvalid

/-- A definition that belongs to the desk, and is given the whole text. -/
def clerk (id : Nat) (name : String) : StepDefinition :=
  { definition id name with
    pattern := ⟨"(.*)", ⟨[.group (some 1) .none .none [.loop .greedy 0 none [.any]]], .none, 1, []⟩⟩
    owner := some "desk"
    priority := 1 }

end Sample

/-- Of two definitions that take the text of a step the one of higher priority is called, on the desk. -/
theorem Executor.dispatches_of_run_sample :
    let x := { Sample.executor [] with
      registry := ⟨[Sample.definition 1 "guest", Sample.clerk 2 "clerk"], [], true⟩
      root := Sample.hotel }
    let w : Surroundings :=
      ⟨fun _ => none, fun _ => none, fun _ => false, fun f => .ok ⟨.text f.identity, []⟩⟩
    let t := w.traceOf (x.run Sample.scenario none none)
    t.stepInvocations.map (fun p => (p.1, p.2.callable.id)) = [(some 0, 2), (some 1, 2)] ∧
      ∃ full : Trace, x.Voiced t full ∧ ∀ i k, (i, k) ∈ full.stepInvocations →
        ∃ (n : Nat) (s : Step) (built : List Instance), i = some (n : Int) ∧
          Sample.scenario.steps[n]? = some s ∧ x.Dispatches built s k := by
  intro x w t
  have hc : compose x.root = _ := Sample.compose_hotel
  refine ⟨?_, ?_⟩
  · unfold t Surroundings.traceOf Executor.run Executor.runCase Executor.setUp
    rw [hc]
    decide +kernel
  · have hrun := w.runs_traceOf (x.run Sample.scenario none none)
    obtain ⟨full, hvoiced, _, _, hcalls⟩ := Executor.dispatches_of_run hrun
    refine ⟨full, hvoiced, ?_⟩
    intro i k hk
    obtain ⟨n, s, built, hi, hs, _, hk⟩ := hcalls i k hk
    exact ⟨n, s, built, hi, hs, hk⟩

end Rehearsal
