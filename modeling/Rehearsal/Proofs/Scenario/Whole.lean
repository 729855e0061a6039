import Rehearsal.Proofs.Matching
import Rehearsal.Proofs.Registry
import Rehearsal.Proofs.Scenario.Act

/-! From the acts to the whole run. A relation that composes and that every act stands in holds of the
hooks of a phase, of a step, of all steps, and of the run up to its cleanup and through it. Hooks are
chosen and matching fails without a stray fault as long as tags and coercers are orderly. -/

namespace Rehearsal
set_option autoImplicit false

/-- Choosing hooks by the tags of a case does not fail, and coercers report their failures. -/
structure Executor.Orderly (x : Executor) (c : Case) : Prop where
  selects : ∀ phase, ∃ hooks, x.registry.lookup phase (some c.tags) = .ok hooks
  reports : x.matcher.coercions.Reports

/-- There is a root, and every definition has its context. -/
structure DispatchTable.Fit (d : DispatchTable) : Prop where
  rooted : d.arena.nodes ≠ []
  targeted : d.targets.length = d.definitions.length

theorem DispatchTable.fit_of_build {r : Registry} {a : Arena} {d : DispatchTable}
    (ha : a.nodes ≠ []) (h : DispatchTable.build r a = .ok d) : d.Fit := by
  obtain ⟨rfl, _, hall⟩ := DispatchTable.build_eq_ok h
  exact ⟨ha, hall.length_eq.symm⟩

/-- A relation in which every act of the hooks of a case stands: those that are not seen, calls with
admitted arguments, and the results of hooks of admitted phases. -/
structure HookActs (x : Executor) (c : Case) (K : Ledger → Trace → Option Fault → Ledger → Prop)
    (C : List Argument → Prop) (P : HookPhase → Prop) : Prop extends Sequential K where
  offstage : ∀ {l t e}, t.offstage = true → (t.tame = true → e = none) → K l t e l
  call : ∀ callable args place, C args → Upholds K (x.invoke c callable args place)
  hook : ∀ h f, P h.phase → Upholds K (x.recordHook (x.hookResult c h f))

/-- A relation in which every act of the hooks and the steps of a case stands. What is not orderly may
go astray at any time. -/
structure Acts (x : Executor) (c : Case) (K : Ledger → Trace → Option Fault → Ledger → Prop)
    (C : List Argument → Prop) (P : HookPhase → Prop) : Prop extends HookActs x c K C P where
  stray : ¬ x.Orderly c → ∀ l f, K l [] (some f) l

variable {x : Executor} {c : Case} {K : Ledger → Trace → Option Fault → Ledger → Prop}
  {C : List Argument → Prop} {P : HookPhase → Prop}

namespace HookActs
variable (A : HookActs x c K C P)
include A

theorem runHook {a : Arena} {scope : Scope} {h : Hook} (ha : a.nodes ≠ [])
    (hb : a.binds h.owner = true) (hP : P h.phase) (hC : ∀ v, C [.value v, .scope scope]) :
    Upholds K (x.runHook c a scope h) := by
  obtain ⟨i, hi⟩ := Arena.exists_ownerInstance ha hb
  refine Effect.upholds_settle_bind (fun e he => nomatch hi.symm.trans he) fun target _ => ?_
  intro l t o l' hr
  have hcall := A.call h.callable [.value target.value, .scope scope] h.name (hC _)
  rcases ends_bind_iff.1 hr with ⟨u, v, r, l₁, rfl, hc, hs⟩ | ⟨e, rfl, hc⟩
  · obtain ⟨f, _, _, _, _, _, hr, _⟩ := Executor.ends_invoke hc
    obtain rfl := hr r rfl
    have hresult := upholds_bind A.toSequential (A.hook h f hP) fun _ =>
      upholds_pure A.toSequential (x.countsAs h.name f).1
    exact A.trans (hcall hc) (hresult hs)
  · exact hcall hc

theorem runHookList {a : Arena} {scope : Scope} {halt : Bool} {hs : List Hook} (ha : a.nodes ≠ [])
    (hs_ok : ∀ h ∈ hs, a.binds h.owner = true ∧ P h.phase) (hC : ∀ v, C [.value v, .scope scope]) :
    Upholds K (x.runHookList c a scope halt hs) := by
  induction hs with
  | nil => exact upholds_pure A.toSequential _
  | cons h hs ih =>
    have hrest := ih fun h hm => hs_ok h (List.mem_cons_of_mem _ hm)
    obtain ⟨hb, hP⟩ := hs_ok h List.mem_cons_self
    rw [Executor.runHookList]
    apply upholds_bind A.toSequential (A.runHook ha hb hP hC)
    intro status
    split
    · split
      · exact upholds_bind A.toSequential hrest fun _ => upholds_pure A.toSequential _
      · exact upholds_pure A.toSequential _
    · exact hrest

theorem runHooks {phase : HookPhase} {a : Arena} {scope : Scope} {halt : Bool}
    (hl : ∀ f, x.registry.lookup phase (some c.tags) = .error f → ∀ l, K l [] (some f) l)
    (hscope : scope.tags = some c.tags) (ha : a.nodes ≠ []) (hP : P phase)
    (hC : ∀ v, C [.value v, .scope scope]) : Upholds K (x.runHooks phase c a scope halt) := by
  rw [Executor.runHooks, hscope]
  refine Effect.upholds_settle_bind hl fun hooks hs => ?_
  refine A.runHookList ha (fun h hm => ?_) hC
  obtain ⟨hm, hb⟩ := List.mem_filter.1 hm
  exact ⟨hb, Registry.phase_of_mem_lookup hs hm ▸ hP⟩

theorem cleanUp {a : Arena}
    (hl : ∀ f, x.registry.lookup .afterScenario (some c.tags) = .error f → ∀ l, K l [] (some f) l)
    (ha : a.nodes ≠ []) (hP : P .afterScenario)
    (hs : Upholds K (x.transition c .runningAfterHooks none))
    (hC : ∀ v r, C [.value v, .scope (.scenario (c.scope (some r)))]) :
    Upholds K (x.cleanUp c a) := by
  apply upholds_bind A.toSequential hs
  intro _
  apply upholds_bind A.toSequential (upholds_get A.toSequential)
  intro _
  refine upholds_bind A.toSequential ?_ fun _ => upholds_pure A.toSequential _
  exact A.runHooks hl rfl ha hP fun v => hC v _

end HookActs

namespace Acts
variable (A : Acts x c K C P)
include A

theorem throw {α : Type} (f : Fault) (h : ¬ x.Orderly c) :
    Upholds K (throw f : Executor.Action α) := by
  intro l t o l' he
  obtain ⟨rfl, rfl, rfl⟩ := ends_throw_iff.1 he
  exact A.stray h _ f

theorem unselected {phase : HookPhase} (f : Fault)
    (h : x.registry.lookup phase (some c.tags) = .error f) (l : Ledger) : K l [] (some f) l := by
  refine A.stray (fun ho => ?_) l f
  obtain ⟨hooks, hs⟩ := ho.selects phase
  exact nomatch hs.symm.trans h

theorem runHooks {phase : HookPhase} {a : Arena} {scope : Scope} {halt : Bool}
    (hscope : scope.tags = some c.tags) (ha : a.nodes ≠ []) (hP : P phase)
    (hC : ∀ v, C [.value v, .scope scope]) : Upholds K (x.runHooks phase c a scope halt) :=
  A.toHookActs.runHooks A.unselected hscope ha hP hC

theorem dispatch {d : DispatchTable} {s : Step} (hd : d.Fit)
    (hC : ∀ i captures argument, C (Executor.stepArguments i captures argument)) :
    Upholds K (x.dispatch c d s) := by
  rw [Executor.dispatch]
  refine upholds_bind A.toSequential ?_ fun _ => ?_
  · intro l t o l' h
    obtain ⟨rfl, ht, ho⟩ := Executor.ends_tell h
    exact A.offstage ht fun h => by rw [ho h, errorIn_ok]
  · split
    · rename_i f hf
      split
      · exact upholds_pure A.toSequential _
      · rename_i hn
        exact A.throw f fun ho => hn (Matcher.isMatchFailure_of_matchText ho.reports hf)
    · intro l t o l' h
      obtain ⟨rfl, ht, _, ho⟩ := Executor.ends_undefinedVerdict h
      exact A.offstage ht fun h => by rw [ho h, errorIn_ok]
    · rename_i sm hm
      have hlt : sm.order < d.targets.length := by
        rw [hd.targeted]
        exact (List.getElem?_eq_some_iff.1 (Matcher.getElem?_order hm)).1
      rw [List.getElem?_eq_getElem hlt]
      exact upholds_bind A.toSequential (A.call _ _ _ (hC _ _ _)) fun _ =>
        upholds_pure A.toSequential _

theorem attempt {d : DispatchTable} {index : Nat} {s : Step} (hd : d.Fit) (hP : P .beforeStep)
    (hC : ∀ i captures argument, C (Executor.stepArguments i captures argument))
    (hS : ∀ v r, C [.value v, .scope (Executor.stepScope c index s r)]) :
    Upholds K (x.attempt c d index s) := by
  refine upholds_bind A.toSequential ?_ fun ready => ?_
  · exact A.runHooks rfl hd.rooted hP fun v => hS v _
  · split
    · exact A.dispatch hd hC
    · exact upholds_bind A.toSequential (upholds_get A.toSequential) fun _ =>
        upholds_pure A.toSequential _

theorem review {d : DispatchTable} {index : Nat} {s : Step} {v : Executor.Verdict} (hd : d.Fit)
    (hP : P .afterStep) (hS : ∀ v r, C [.value v, .scope (Executor.stepScope c index s r)]) :
    Upholds K (x.review c d index s v) := by
  refine upholds_bind A.toSequential ?_ fun clean => ?_
  · exact A.runHooks rfl hd.rooted hP fun v => hS v _
  · split
    · exact upholds_bind A.toSequential (upholds_get A.toSequential) fun _ =>
        upholds_pure A.toSequential _
    · exact upholds_pure A.toSequential _

theorem cleanUp {a : Arena} (ha : a.nodes ≠ []) (hP : P .afterScenario)
    (hs : Upholds K (x.transition c .runningAfterHooks none))
    (hC : ∀ v r, C [.value v, .scope (.scenario (c.scope (some r)))]) :
    Upholds K (x.cleanUp c a) :=
  A.toHookActs.cleanUp A.unselected ha hP hs hC

theorem cleanUpSalvaged {salvaged : Option Arena} (ha : ∀ a, salvaged = some a → a.nodes ≠ [])
    (hP : P .afterScenario) (hs : Upholds K (x.transition c .runningAfterHooks none))
    (hC : ∀ v r, C [.value v, .scope (.scenario (c.scope (some r)))]) :
    Upholds K (x.cleanUpSalvaged c salvaged) := by
  cases salvaged with
  | none => exact upholds_pure A.toSequential _
  | some a => exact A.cleanUp (ha a rfl) hP hs hC

end Acts

theorem upholds_skipAll (hK : Sequential K)
    (hstep : ∀ r : StepResult, r.status = .skipped → Upholds K (x.recordStep r)) {index : Nat}
    {ss : List Step} : Upholds K (x.skipAll c index ss) := by
  induction ss generalizing index with
  | nil => exact upholds_pure hK _
  | cons s ss ih => exact upholds_bind hK (hstep _ rfl) fun _ => ih

/-- A relation in which every act of a run stands, up to its cleanup. -/
structure RunActs (x : Executor) (c : Case) (K : Ledger → Trace → Option Fault → Ledger → Prop)
    (C : List Argument → Prop) (P : HookPhase → Prop) : Prop extends Acts x c K C P where
  step : ∀ r, Upholds K (x.recordStep r)
  beforeHooks : Upholds K (x.transition c .runningBeforeHooks none)
  running : ∀ index : Nat, Upholds K (x.transition c .runningStep (some index))
  admitsStep : ∀ i captures argument, C (Executor.stepArguments i captures argument)
  admitsStepHook : ∀ v s, C [.value v, .scope (.step s)]
  admitsHook : ∀ v, C [.value v, .scope (.scenario (c.scope none))]
  beforeScenario : P .beforeScenario
  beforeStep : P .beforeStep
  afterStep : P .afterStep

theorem Acts.toRunActs (A : Acts x c K (fun _ => True) (fun _ => True))
    (hstep : ∀ r, Upholds K (x.recordStep r))
    (hstage : ∀ stage index, Upholds K (x.transition c stage index)) :
    RunActs x c K (fun _ => True) (fun _ => True) where
  toActs := A
  step := hstep
  beforeHooks := hstage _ _
  running _ := hstage _ _
  admitsStep _ _ _ := trivial
  admitsStepHook _ _ := trivial
  admitsHook _ := trivial
  beforeScenario := trivial
  beforeStep := trivial
  afterStep := trivial

namespace RunActs
variable (A : RunActs x c K C P)
include A

theorem runStep {d : DispatchTable} {index : Nat} {s : Step} (hd : d.Fit) :
    Upholds K (x.runStep c d index s) := by
  have hS : ∀ v r, C [.value v, .scope (Executor.stepScope c index s r)] :=
    fun v _ => A.admitsStepHook v _
  apply upholds_bind A.toSequential (A.attempt hd A.beforeStep A.admitsStep hS)
  intro _
  apply upholds_bind A.toSequential (A.review hd A.afterStep hS)
  intro _
  exact upholds_bind A.toSequential (A.step _) fun _ => upholds_pure A.toSequential _

theorem stopped : Upholds K x.stopped := by
  intro l t o l' h
  obtain ⟨rfl, ht, b, rfl, _⟩ := Executor.ends_stopped h
  exact A.offstage ht fun _ => rfl

theorem runSteps {d : DispatchTable} {index : Nat} {skip : Bool} {ss : List Step} (hd : d.Fit) :
    Upholds K (x.runSteps c d index skip ss) := by
  induction ss generalizing index skip with
  | nil => exact upholds_pure A.toSequential _
  | cons s ss ih =>
    rw [Executor.runSteps]
    refine upholds_bind A.toSequential ?_ fun stop => ?_
    · split
      · exact upholds_pure A.toSequential _
      · exact A.stopped
    · split
      · exact upholds_bind A.toSequential (A.step _) fun _ => ih
      · refine upholds_bind A.toSequential (A.running _) fun _ => ?_
        exact upholds_bind A.toSequential (A.runStep hd) fun _ => ih

theorem skipAll {index : Nat} {ss : List Step} : Upholds K (x.skipAll c index ss) :=
  upholds_skipAll A.toSequential fun r _ => A.step r

theorem skipRemaining : Upholds K (x.skipRemaining c) :=
  upholds_bind A.toSequential (upholds_get A.toSequential) fun _ => A.skipAll

theorem proceedThrough {d : DispatchTable} (hd : d.Fit) : Upholds K (x.proceedThrough c d) := by
  apply upholds_bind A.toSequential A.beforeHooks
  intro _
  refine upholds_bind A.toSequential ?_ fun _ => A.runSteps hd
  exact A.runHooks rfl hd.rooted A.beforeScenario A.admitsHook

end RunActs
end Rehearsal
