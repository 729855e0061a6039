import Rehearsal.Proofs.Binding
import Rehearsal.Proofs.Captures
import Rehearsal.Proofs.Scenario.Cleanup
import Rehearsal.Proofs.Scenario.Dispatch

/-! What the run of a scenario gives to the callables that it calls. Each call is that of a hook or of a
definition in the registry. A hook receives the context of its owner and a scope, a definition the context
of its owner, as many captures as its pattern has groups, and the table or docstring of the step. -/

namespace Rehearsal
set_option autoImplicit false

/-- How the callables of a registry are called. -/
inductive Registry.Answers (r : Registry) : Call → Prop where
  | onContext {h : Hook} (v : Value) (scope : Scope) : h ∈ r.registered →
      h.phase.instanceBound = true → Answers r ⟨h.callable, [.value v, .scope scope]⟩
  | offContext {h : Hook} (scope : Scope) : h ∈ r.registered →
      h.phase.instanceBound = false → Answers r ⟨h.callable, [.scope scope]⟩
  | step {d : StepDefinition} (i : Instance) (captures : List Value) (argument : Value) :
      d ∈ r.definitions → captures.length = d.arity →
      Answers r ⟨d.callable, Executor.stepArguments i captures argument⟩

/-- The callables of a registry are called in no other way, and nothing else is. -/
def Registry.Governs (r : Registry) (t : Trace) : Prop := ∀ k ∈ t.calls, r.Answers k

namespace Registry
variable {r : Registry} {t u : Trace}

theorem governs_of_calls_nil (h : t.calls = []) : r.Governs t := by
  rw [Governs, h]
  exact List.forall_mem_nil _

theorem Governs.append (ht : r.Governs t) (hu : r.Governs u) : r.Governs (t ++ u) := by
  rw [Governs, Trace.calls_append]
  exact List.forall_mem_append.2 ⟨ht, hu⟩

theorem governs_call {k : Call} {f : Option Fault} {b : Bool} (hk : r.Answers k)
    (hu : u.offstage = true) : r.Governs (⟨.call k.callable k.args, f, b⟩ :: u) := by
  have hcalls : Trace.calls (⟨.call k.callable k.args, f, b⟩ :: u) = k :: Trace.calls u := rfl
  rw [Governs, hcalls, Trace.calls_of_offstage hu]
  exact List.forall_mem_singleton.2 hk

theorem mem_registered_of_lookup {phase : HookPhase} {tags : Option (List String)} {hooks : List Hook}
    (h : r.lookup phase tags = .ok hooks) {hook : Hook} (hm : hook ∈ hooks) :
    hook ∈ r.registered ∧ hook.phase = phase :=
  ⟨(List.mem_filter.1 ((lookup_sublist h).subset hm)).1, phase_of_mem_lookup h hm⟩

end Registry

namespace Executor
variable {x : Executor} {c : Case} {t : Trace}

theorem silent_governs : Silent x x.registry.Governs where
  append := Registry.Governs.append
  aside ht := Registry.governs_of_calls_nil (Trace.calls_of_offstage ht)
  hands _ h := Registry.governs_of_calls_nil h.calls

theorem sequential_governs :
    Sequential fun (_ : Ledger) t (_ : Option Fault) (_ : Ledger) => x.registry.Governs t :=
  silent_governs.sequential

theorem governs_invoke {k : Call} {place : String} (hk : x.registry.Answers k) :
    Upholds (fun _ t _ _ => x.registry.Governs t) (x.invoke c k.callable k.args place) := by
  intro l t o l' h
  obtain ⟨f, m, u, rfl, hu, _⟩ := ends_invoke h
  exact Registry.governs_call hk hu

section Hooks
variable {a : Arena} {scope : Scope} {h : Hook} {halt : Bool}

theorem governs_runHook (hm : h ∈ x.registry.registered) (hb : h.phase.instanceBound = true) :
    Upholds (fun _ t _ _ => x.registry.Governs t) (x.runHook c a scope h) := by
  refine Effect.upholds_settle_bind (fun _ _ _ => sequential_governs.refl Ledger.empty) fun i _ => ?_
  refine upholds_bind sequential_governs (governs_invoke (.onContext i.value scope hm hb)) fun r => ?_
  refine upholds_bind sequential_governs ?_ fun _ => upholds_pure sequential_governs _
  exact fun _ _ _ _ h => Registry.governs_of_calls_nil (ends_recordHook h).2.calls

theorem governs_runHookList {hs : List Hook}
    (hhs : ∀ h ∈ hs, h ∈ x.registry.registered ∧ h.phase.instanceBound = true) :
    Upholds (fun _ t _ _ => x.registry.Governs t) (x.runHookList c a scope halt hs) := by
  induction hs with
  | nil => exact upholds_pure sequential_governs _
  | cons h hs ih =>
    obtain ⟨hh, hrest⟩ := List.forall_mem_cons.1 hhs
    rw [runHookList]
    refine upholds_bind sequential_governs (governs_runHook hh.1 hh.2) fun status => ?_
    split
    · split
      · exact upholds_bind sequential_governs (ih hrest) fun _ => upholds_pure sequential_governs _
      · exact upholds_pure sequential_governs _
    · exact ih hrest

/-- The hooks around a scenario or a step are called on their contexts. -/
theorem governs_runHooks {phase : HookPhase} (hb : phase.instanceBound = true) :
    Upholds (fun _ t _ _ => x.registry.Governs t) (x.runHooks phase c a scope halt) := by
  refine Effect.upholds_settle_bind (fun _ _ _ => sequential_governs.refl Ledger.empty) fun hooks hl => ?_
  refine governs_runHookList fun h hm => ?_
  obtain ⟨hreg, rfl⟩ := Registry.mem_registered_of_lookup hl (List.mem_filter.1 hm).1
  exact ⟨hreg, hb⟩

theorem governs_cleanUp : Upholds (fun _ t _ _ => x.registry.Governs t) (x.cleanUp c a) := by
  refine upholds_bind sequential_governs silent_governs.transition fun _ => ?_
  refine upholds_bind sequential_governs (upholds_get sequential_governs) fun _ => ?_
  exact upholds_bind sequential_governs (governs_runHooks rfl) fun _ => upholds_pure sequential_governs _

end Hooks

section Steps
variable {d : DispatchTable} {s : Step} {index : Nat} (hd : d.definitions = x.registry.definitions)
include hd

theorem governs_dispatch : Upholds (fun _ t _ _ => x.registry.Governs t) (x.dispatch c d s) := by
  intro l t o l' h
  rcases ends_dispatch h with ⟨_, ht, _⟩ | ⟨m, i, u, v, r, hm, _, rfl, hu, hinvoke, _⟩
  · exact silent_governs.aside ht
  · have hmem : m.definition ∈ x.registry.definitions :=
      hd ▸ List.mem_of_getElem? (Matcher.getElem?_order hm)
    have hcall := Registry.Answers.step i m.args s.argument hmem (Matcher.length_args hm)
    exact (silent_governs.aside hu).append (governs_invoke hcall hinvoke)

theorem governs_runStep : Upholds (fun _ t _ _ => x.registry.Governs t) (x.runStep c d index s) := by
  have hattempt : Upholds (fun _ t _ _ => x.registry.Governs t) (x.attempt c d index s) := by
    refine upholds_bind sequential_governs (governs_runHooks rfl) fun ready => ?_
    split
    · exact governs_dispatch hd
    · exact upholds_bind sequential_governs (upholds_get sequential_governs) fun _ =>
        upholds_pure sequential_governs _
  have hreview : ∀ v, Upholds (fun _ t _ _ => x.registry.Governs t) (x.review c d index s v) := by
    intro v
    refine upholds_bind sequential_governs (governs_runHooks rfl) fun clean => ?_
    split
    · exact upholds_bind sequential_governs (upholds_get sequential_governs) fun _ =>
        upholds_pure sequential_governs _
    · exact upholds_pure sequential_governs _
  refine upholds_bind sequential_governs hattempt fun v => ?_
  refine upholds_bind sequential_governs (hreview v) fun v => ?_
  exact upholds_bind sequential_governs silent_governs.recordStep fun _ =>
    upholds_pure sequential_governs _

theorem governs_runSteps {skip : Bool} {ss : List Step} :
    Upholds (fun _ t _ _ => x.registry.Governs t) (x.runSteps c d index skip ss) := by
  induction ss generalizing index skip with
  | nil => exact upholds_pure sequential_governs _
  | cons s ss ih =>
    rw [runSteps]
    refine upholds_bind sequential_governs ?_ fun stop => ?_
    · split
      · exact upholds_pure sequential_governs _
      · exact fun _ _ _ _ h => silent_governs.aside (ends_stopped h).2.1
    · split
      · exact upholds_bind sequential_governs silent_governs.recordStep fun _ => ih
      · refine upholds_bind sequential_governs silent_governs.transition fun _ => ?_
        exact upholds_bind sequential_governs (governs_runStep hd) fun _ => ih

theorem governs_runComposed : Upholds (fun _ t _ _ => x.registry.Governs t) (x.runComposed c d) := by
  have hproceed : Upholds (fun _ t _ _ => x.registry.Governs t) (x.proceedThrough c d) := by
    refine upholds_bind sequential_governs silent_governs.transition fun _ => ?_
    exact upholds_bind sequential_governs (governs_runHooks rfl) fun _ => governs_runSteps hd
  intro l t o l' h
  obtain ⟨t₁, t₂, t₃, t₄, r₁, r₂, r₃, l₁, l₂, l₃, rfl, hrun, hrecover, hclean, hend⟩ :=
    ends_runComposed h
  refine (hproceed hrun).append (.append (silent_governs.recover hrecover) ?_)
  refine (governs_cleanUp hclean).append ?_
  rcases hend with ⟨_, _, hconclude⟩ | ⟨rfl, _⟩
  · exact silent_governs.closing.conclude hconclude
  · exact silent_governs.aside rfl

end Steps

theorem governs_abandon {cause : Fault} {salvaged : Option Arena} :
    Upholds (fun _ t _ _ => x.registry.Governs t) (x.abandon c cause salvaged) := by
  refine upholds_abandon (L := fun t _ => x.registry.Governs t) sequential_governs
    (fun level message fields => ?_) silent_governs.skipAll ?_ silent_governs.closing.announce
  · exact fun _ _ _ _ h => silent_governs.aside (Effect.ends_log h).2.1
  · cases salvaged with
    | none => exact upholds_pure sequential_governs _
    | some a => exact governs_cleanUp

/-- Whatever comes of a run, it calls hooks and definitions of its registry in their ways and nothing
else. -/
theorem governs_run {scenario : Scenario} {feature : Option Feature} {id : Option String}
    {o : Except Fault ScenarioResult} (h : (x.run scenario feature id).Runs t o) :
    x.registry.Governs t := by
  obtain ⟨l', h⟩ := runs_run_iff.1 h
  cases caseRun_of_ends h with
  | refused t hs => exact silent_governs.setUp hs
  | escaped t hs _ => exact silent_governs.setUp hs
  | abandoned u v b hs _ hk => exact .append (silent_governs.setUp hs) (governs_abandon hk)
  | composed u v d hs _ hk =>
    obtain ⟨_, _, _, hd, _⟩ := exists_built_of_setUp hs
    exact .append (silent_governs.setUp hs) (governs_runComposed hd hk)

end Executor
end Rehearsal
