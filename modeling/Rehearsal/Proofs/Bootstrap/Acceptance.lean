import Rehearsal.Proofs.Binding
import Rehearsal.Proofs.Bootstrap.Findings
import Rehearsal.Proofs.Suite.Calls

/-! What is accepted can be called. The callables of a registry were looked at when their hooks and
definitions were made, against the arguments that a run gives them: those of hooks bind in every call, and
those of definitions to a context with the captures, or with one argument more. -/

namespace Rehearsal
set_option autoImplicit false

/-- What is registered was made, and not refused. -/
def Item.Made : Item → Prop
  | step d => d.Made
  | hook h => h.Made
  | other _ => True

/-- Whatever a callable is given in a call binds to its parameters, if these are known. -/
def Call.Binds (k : Call) : Prop :=
  ∀ s, k.callable.signature = some s → s.Regular →
    ∀ callee, ∃ bound, s.bind callee k.args [] = .ok bound

namespace Registry

/-- All that is in a registry was made, and not refused. -/
structure Made (r : Registry) : Prop where
  definitions : ∀ d ∈ r.definitions, d.Made
  registered : ∀ h ∈ r.registered, h.Made

/-- In a registry of what was made every call of a hook binds. -/
theorem Answers.binds {r : Registry} {k : Call} (hk : r.Answers k) (hr : r.Made)
    (hhook : k.isStep = false) : k.Binds := by
  intro s hs hreg callee
  cases hk with
  | onContext v scope hm hb =>
    refine (hr.registered _ hm).takes hs hreg callee _ ?_
    rw [Hook.argumentCount, hb]
    rfl
  | offContext scope hm hb =>
    refine (hr.registered _ hm).takes hs hreg callee _ ?_
    rw [Hook.argumentCount, hb]
    rfl
  | step i captures argument _ _ =>
    cases hhook.symm.trans (Executor.isValue_stepArguments i captures argument)

end Registry

theorem Finding.made_of_item {x : Finding} {i : Item} (h : x.item = .ok i) : i.Made := by
  have hstep : ∀ {callable owner mark}, Discovery.stepItem callable owner mark = .ok i → i.Made := by
    intro callable owner mark h
    rw [Discovery.stepItem] at h
    cases hd : StepDefinition.make _ _ _ _ _ _ _ with
    | ok d =>
      rw [hd] at h
      cases h
      exact ⟨_, _, _, _, _, _, _, hd⟩
    | error f =>
      rw [hd] at h
      cases h
  have hhook : ∀ {callable owner mark}, Discovery.hookItem callable owner mark = .ok i → i.Made := by
    intro callable owner mark h
    rw [Discovery.hookItem] at h
    cases hk : Hook.make _ _ _ _ _ with
    | ok k =>
      rw [hk] at h
      cases h
      exact ⟨_, _, _, _, _, hk⟩
    | error f =>
      rw [hk] at h
      cases h
  cases x with
  | step site mark =>
    cases site with
    | function _ => exact hstep h
    | member path owner m =>
      rw [item, Discovery.memberStep] at h
      split at h
      · exact hstep h
      · cases h
  | hook site mark =>
    cases site with
    | function _ => exact hhook h
    | member path owner m =>
      rw [item, Discovery.memberHook] at h
      split at h <;> split at h
      · exact hhook h
      · cases h
      · exact hhook h
      · cases h

/-- What discovery registers was made. -/
theorem Registry.made_of_buildRegistry {root : ContextSpec} {modules : List StepModule} {r : Registry}
    (h : buildRegistry root modules = .ok r) : r.Made := by
  obtain ⟨items, hitems, hdefinitions, hregistered, _⟩ := entries_of_buildRegistry h
  have hmade : ∀ i ∈ items, i.Made := by
    intro i hi
    obtain ⟨x, _, hx⟩ := exists_left_of_forall₂ (mapM_eq_ok_iff.1 hitems) hi
    exact Finding.made_of_item hx
  constructor
  · rw [hdefinitions]
    intro d hd
    obtain ⟨i, hi, hi'⟩ := List.mem_filterMap.1 hd
    cases i <;> cases hi'
    exact hmade _ hi
  · rw [hregistered]
    intro k hk
    obtain ⟨i, hi, hi'⟩ := List.mem_filterMap.1 hk
    cases i <;> cases hi'
    exact hmade _ hi

/-- A callable is accepted if and only if it takes some number of arguments of those it may be given. So
hooks take the arguments of their phase, and definitions a context with a capture for each group, or one
argument more; and whatever comes of a run, all that it calls is called in these ways, and what it gives to a
hook binds. -/
theorem Registry.callables_bind {r : Registry} (hr : r.Made) :
    (∀ (c : Callable) (s : Signature) (subject : String) (count extra : Nat),
      c.isCallable = true → c.signature = some s → s.Regular →
        (ensureAccepts c count subject extra = .ok () ↔
          ∃ n, count ≤ n ∧ n ≤ count + extra ∧ s.Takes n)) ∧
    (∀ h ∈ r.registered, ∀ s, h.callable.signature = some s → s.Regular →
      s.Takes (Hook.argumentCount h.phase)) ∧
    (∀ d ∈ r.definitions, ∀ s, d.callable.signature = some s → s.Regular →
      s.Takes (1 + d.arity) ∨ s.Takes (1 + d.arity + 1)) ∧
    (∀ (x : Executor) (scenario : Scenario) (feature : Option Feature) (id : Option String) (t : Trace)
      (o : Except Fault ScenarioResult), x.registry = r → (x.run scenario feature id).Runs t o →
        ∀ k ∈ t.calls, r.Answers k ∧ (k.isStep = false → k.Binds)) ∧
    ∀ (s : Suite) (features : List Feature) (t : Trace) (o : Except Fault SuiteResult),
      s.registry = r → (s.run features).Shows t o →
        ∀ k ∈ t.calls, r.Answers k ∧ (k.isStep = false → k.Binds) := by
  refine ⟨?_, ?_, ?_, ?_, ?_⟩
  · intro c s subject count extra hc hs hreg
    exact ensureAccepts_iff_exists_takes hc hs hreg
  · intro h hm s hs hreg
    exact (hr.registered h hm).takes hs hreg
  · intro d hm s hs hreg
    exact (hr.definitions d hm).takes hs hreg
  · rintro x scenario feature id t o rfl hrun k hk
    have hanswers := Executor.governs_run hrun k hk
    exact ⟨hanswers, hanswers.binds hr⟩
  · rintro s features t o rfl hrun k hk
    have hanswers := Suite.governs_run hrun k hk
    exact ⟨hanswers, hanswers.binds hr⟩

namespace Sample

/-- A method that takes a room, and a table or docstring if there is one. -/
def desk : Callable :=
  { callable 2 "book" with
    signature := some [⟨"self", .plain, false⟩, ⟨"room", .plain, false⟩, ⟨"table", .plain, true⟩] }

/-- A method that takes a scope. -/
def bell : Callable :=
  { callable 1 "ring" with
    signature := some [⟨"self", .plain, false⟩, ⟨"scope", .plain, false⟩] }

def ringing : Hook := ⟨.beforeScenario, bell, none, none, bell.location⟩

end Sample

/-- A hook that takes a scope is called on its context, and a definition with one group takes its capture. -/
theorem Registry.callables_bind_sample :
    (∃ (d : StepDefinition) (s : Signature), d.arity = 1 ∧ Made ⟨[d], [Sample.ringing], true⟩ ∧
      d.callable.signature = some s ∧ s.Regular ∧ (s.Takes 2 ∨ s.Takes 3)) ∧
    let x := Sample.executor [Sample.ringing]
    let w := Sample.surroundings (fun _ => none) fun _ => none
    let t := w.traceOf (x.run Sample.scenario none none)
    x.registry.Made ∧ t.calls.map (·.callable) = [Sample.bell] ∧
      ∀ k ∈ t.calls, x.registry.Answers k ∧ (k.isStep = false → k.Binds) := by
  have hring : Sample.ringing.Made :=
    ⟨.text "before_scenario", Sample.bell, none, .null, none, by decide +kernel⟩
  constructor
  · have hmake : (StepDefinition.make (.text "room (.*)") Sample.desk none 0 (.text "step") []
        none).toOption.any (fun d => d.arity == 1 && d.callable == Sample.desk) = true := by
      decide +kernel
    obtain ⟨d, hd, hlike⟩ := exists_ok_of_any hmake
    rw [Bool.and_eq_true, beq_iff_eq, beq_iff_eq] at hlike
    obtain ⟨harity, hdesk⟩ := hlike
    have hmade : Made ⟨[d], [Sample.ringing], true⟩ :=
      ⟨List.forall_mem_singleton.2 ⟨_, _, _, _, _, _, _, hd⟩, List.forall_mem_singleton.2 hring⟩
    have hs : d.callable.signature = some _ := congrArg Callable.signature hdesk
    have htakes := (Registry.callables_bind hmade).2.2.1 d List.mem_cons_self _ hs (by decide)
    rw [harity] at htakes
    exact ⟨d, _, harity, hmade, hs, by decide, htakes⟩
  · intro x w t
    have hmade : x.registry.Made := ⟨List.forall_mem_nil _, List.forall_mem_singleton.2 hring⟩
    refine ⟨hmade, ?_, ?_⟩
    · have hc : compose x.root = _ := compose_leaf ..
      unfold t Surroundings.traceOf Executor.run Executor.runCase Executor.setUp
      rw [hc]
      decide +kernel
    · have hrun := w.runs_traceOf (x.run Sample.scenario none none)
      exact (Registry.callables_bind hmade).2.2.2.1 x _ _ _ _ _ rfl hrun

end Rehearsal
