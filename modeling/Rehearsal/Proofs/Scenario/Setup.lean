import Rehearsal.Proofs.Scenario.Dispatch
import Rehearsal.Proofs.Scenario.Turns

/-! Scenarios whose contexts could not all be constructed. A factory that raises something ends the
composition; the steps are skipped, and of all hooks only those that clean up after the scenario are
called, on the contexts that were there before. -/

namespace Rehearsal
set_option autoImplicit false

theorem Trace.contained_of_mem_constructions {t : Trace} {factory : Factory} {f : Fault}
    (ht : t.tame = true) (hf : (factory, .error f) ∈ t.constructions) : Composition.escapes f = false := by
  obtain ⟨⟨r, y, b⟩, hm, he⟩ := List.mem_filterMap.1 hf
  have htame := List.all_eq_true.1 ht _ hm
  cases r with
  | construct _ _ =>
    cases he
    simpa [Moment.tame] using htame
  | _ => cases he

namespace Executor
variable {x : Executor} {c : Case} {l l' : Ledger} {t : Trace} {built : List Instance} {f : Fault}

/-- In the run that a trace tells of, these instances were built, and what was to build the next one
raised a fault. -/
def BreaksAt (x : Executor) (c : Case) (t : Trace) (built : List Instance) (f : Fault) : Prop :=
  ∃ u v r l, t = u ++ v ∧ Ends (x.setUp c) Ledger.empty u r l ∧
    u.constructions.map (·.2) = built.map .ok ++ [.error f]

/-- A hook is called on the instance of its owner, or on the first one if it has none. -/
def IsCallOn (specs : List ContextSpec) (built : List Instance) (scope : Scope) (k : Call) (h : Hook) :
    Prop :=
  ∃ j i, ContextSpec.OwnerAt specs h.owner j ∧ built[j]? = some i ∧
    k = ⟨h.callable, [.value i.value, .scope scope]⟩

/-- Is the owner of a hook, if it has one, among some contexts? -/
def ownedIn (specs : List ContextSpec) (h : Hook) : Bool :=
  h.owner.all fun aliasName => specs.any (·.aliasName == aliasName)

/-- A run that was abandoned when a context could not be constructed. Its error names that context, its
steps are skipped, and it calls hooks of the contexts before that one and nothing else. -/
structure Abandons (x : Executor) (c : Case) (built : List Instance) (f : Fault) (hooks : List Hook)
    (t : Trace) (r : ScenarioResult) : Prop where
  aborted : r.stage = .aborted
  failed : r.status = .failed
  kind : r.error.map (·.kind) = some "SetupError"
  error : ∃ s, x.root.contexts[built.length]? = some s ∧
    r.error = some (x.setUpError c (.construction s.aliasName s.identity f))
  steps : r.steps = c.scenario.steps.zipIdx.map (skippedStep c)
  emitted : x.emits = true → t.steps = r.steps
  bare : built = [] → t.calls = []
  cleaned : built ≠ [] → ∃ shown, List.Forall₂
    (IsCallOn (x.root.contexts.take built.length) built (.scenario (c.scope (some shown)))) t.calls
    (hooks.filter (ownedIn (x.root.contexts.take built.length)))

/-- Setting up comes to the failure of the construction, with the contexts before it. -/
theorem broken_of_setUp {o : Except Fault (Except Broken DispatchTable)}
    (h : Ends (x.setUp c) l t o l') (ht : t.tame = true)
    (hb : t.constructions.map (·.2) = built.map .ok ++ [.error f]) :
    ∃ b s, o = .ok (.error b) ∧ x.root.contexts[built.length]? = some s ∧
      b.fault = .construction s.aliasName s.identity f ∧
      (b.salvaged = none ∧ built = [] ∨ ∃ a, b.salvaged = some a ∧ built ≠ [] ∧
        a.Holds (x.root.contexts.take built.length) built) := by
  have hmem : (.error f : Except Fault Instance) ∈ t.constructions.map (·.2) := by
    rw [hb]
    exact List.mem_append_right _ (List.mem_singleton.2 rfl)
  obtain ⟨⟨factory, y⟩, hm, hy⟩ := List.mem_map.1 hmem
  cases hy
  have hf := Trace.contained_of_mem_constructions ht hm
  obtain ⟨_, u, v, rfl, hu, hv⟩ := composes_of_setUp h
  rw [Trace.constructions_append, hu.constructions, List.nil_append] at hb hm
  rcases hv with ⟨_, rfl⟩ | ⟨q, hq, rfl⟩
  · cases hm
  · cases q with
    | error b =>
      obtain ⟨_, s, hs, hfault, hsalvaged⟩ := broken_of_compose hq hf hb
      exact ⟨b, s, rfl, hs, hfault, hsalvaged⟩
    | ok a =>
      -- Where the contexts are complete no factory has raised anything.
      obtain ⟨more, hall, _⟩ := holds_of_compose hq
      rw [hall, List.mem_iff_getElem?] at hm
      obtain ⟨n, hn⟩ := hm
      obtain ⟨s, i, _, _, he⟩ := List.getElem?_zipWith_eq_some.1 hn
      cases he

theorem IsCallOf.isCallOn {a : Arena} {specs : List ContextSpec} {scope : Scope} {k : Call} {h : Hook}
    (ha : a.Holds specs built) (hk : IsCallOf a scope k h) : IsCallOn specs built scope k h := by
  obtain ⟨i, hi, rfl⟩ := hk
  obtain ⟨j, hj, hbuilt⟩ := ha.ownerAt hi
  exact ⟨j, i, hj, hbuilt, rfl⟩

theorem applicable_eq {a : Arena} {specs : List ContextSpec} {hooks : List Hook} {phase : HookPhase}
    (ha : a.Holds specs built) (hl : x.registry.lookup phase (some c.tags) = .ok hooks) :
    x.applicable phase c a = hooks.filter (ownedIn specs) := by
  rw [applicable, hl]
  exact List.filter_congr fun h _ => ha.binds_iff h.owner

theorem abandons_of_run {scenario : Scenario} {feature : Option Feature} {id : Option String}
    {hooks : List Hook} {o : Except Fault ScenarioResult}
    (h : (x.run scenario feature id).Runs t o)
    (hb : x.BreaksAt (.named scenario feature id) t built f)
    (hl : x.registry.lookup .afterScenario (some (Case.named scenario feature id).tags) = .ok hooks)
    (ht : t.tame = true) (hk : t.taken = true) :
    ∃ r, o = .ok r ∧ x.Abandons (.named scenario feature id) built f hooks t r := by
  obtain ⟨u, v, q, l, rfl, hs, hbuilt⟩ := hb
  rw [Trace.tame_append, Bool.and_eq_true] at ht
  rw [Trace.taken_append, Bool.and_eq_true] at hk
  obtain ⟨b, s, rfl, hat, hfault, hsalvaged⟩ := broken_of_setUp hs ht.1 hbuilt
  obtain ⟨rfl, _, _, _, _, _, hsetup⟩ := ends_setUp hs
  have hrooted := (hsetup _ rfl).rooted b
  obtain ⟨l', hc⟩ := runs_run_iff.1 h
  have habandon := (ends_after_setUp hs hc).2 b rfl ((hsetup _ rfl).contained ht.1 b rfl)
  have hcut : Upholds (x.OnlyCutBySink True) (x.abandon (.named scenario feature id) b.fault b.salvaged) :=
    onlyCutBySink_abandon_of_cleanUp fun a ha =>
      hookActs_onlyCutBySink.cleanUp (fun g hg => nomatch hl.symm.trans hg) (hrooted a rfl ha) trivial
        (onlyCutBySink_stage _ _) fun _ _ => trivial
  obtain ⟨r, rfl⟩ := (hcut habandon trivial ht.2).ok hk.2
  refine ⟨r, rfl, ?_⟩
  have ha : ∀ a, b.salvaged = some a → a.nodes ≠ [] := fun a => hrooted a rfl
  obtain ⟨haborted, hfailed, herror⟩ := failed_abandon ha habandon
  obtain ⟨hcalls, _, hsteps⟩ := salvages_abandon ha ht.2 habandon
  obtain ⟨_, hquiet, _⟩ := quiet_setUp hs
  rw [hfault] at herror
  refine ⟨haborted, hfailed, by rw [herror]; rfl, ⟨s, hat, herror⟩, hsteps,
    fun hx => (steps_of_run h hx).symm, fun hnil => ?_, fun hne => ?_⟩
  · obtain ⟨hnone, _⟩ := hsalvaged.resolve_right fun hsome => hsome.choose_spec.2.1 hnil
    rw [hnone] at hcalls
    rw [Trace.calls_append, hquiet, hcalls]
    rfl
  · obtain ⟨a, hsome, _, hholds⟩ := hsalvaged.resolve_left fun hnone => hne hnone.2
    rw [hsome] at hcalls
    obtain ⟨shown, hcalls⟩ := hcalls
    refine ⟨shown, ?_⟩
    rw [Trace.calls_append, hquiet, List.nil_append, ← applicable_eq hholds hl]
    exact hcalls.imp fun _ _ => IsCallOf.isCallOn hholds

/-- Where the desk cannot be built, the hotel is tidied, and nobody locks the desk. -/
theorem abandons_of_run_sample :
    let hooks := [Sample.hook .afterScenario 1 "tidy",
      { Sample.hook .afterScenario 2 "sweep" with owner := some "main" },
      { Sample.hook .afterScenario 3 "lock" with owner := some "desk" }]
    let x := { Sample.executor (Sample.hook .beforeScenario 4 "open" :: hooks) with root := Sample.hotel }
    let w : Surroundings :=
      ⟨fun _ => none, fun n => if n = 1 then some (.ofKind "KeyboardInterrupt" "") else none, fun _ => false,
        fun f => if f.identity = "Desk" then .error (.ofKind "ValueError" "no key") else .ok ⟨.null, []⟩⟩
    let t := w.traceOf (x.run Sample.scenario none none)
    t.calls.map (·.callable.id) = [1, 2] ∧ ∃ r, w.resultOf (x.run Sample.scenario none none) = .ok r ∧
      x.Abandons (.named Sample.scenario none none) [⟨.null, []⟩] (.ofKind "ValueError" "no key") hooks
        t r := by
  intro hooks x w t
  have hc : compose x.root = _ := Sample.compose_hotel
  have hseen : t.calls.map (·.callable.id) = [1, 2] ∧ t.taken = true := by
    unfold t Surroundings.traceOf Executor.run Executor.runCase Executor.setUp
    rw [hc]
    decide +kernel
  have htame : w.Tame := by
    constructor
    · intro n f hf
      dsimp only [w] at hf
      split at hf <;> cases hf
      decide
    · intro factory f hf
      dsimp only [w] at hf
      split at hf <;> cases hf
      rfl
  refine ⟨hseen.1, abandons_of_run (w.runs_traceOf _) ?_ ?_ (Surroundings.tame_traceOf _ htame) hseen.2⟩
  · obtain ⟨v, hv⟩ := w.exists_traceOf_setUp x Sample.scenario none none
    refine ⟨_, v, _, _, hv, w.runs_traceOf _, ?_⟩
    unfold Surroundings.traceOf Executor.setUp
    rw [hc]
    rfl
  · exact Registry.lookup_of_unfiltered (by decide)

end Executor
end Rehearsal
