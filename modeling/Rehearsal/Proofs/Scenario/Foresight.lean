import Rehearsal.Proofs.Scenario.Cleanup
import Rehearsal.Proofs.Scenario.Grade

/-! What the hooks after a scenario are shown. It is a result, made before they are called; the one that
the scenario comes to is made of the same ledger, once they have been added to it. Where all of them pass
the two differ in the hooks that are added, and in the status of a scenario that is overruled. -/

namespace Rehearsal
set_option autoImplicit false

/-- Is the result failed although neither a hook nor a step failed? That is so where the scenario was
aborted, and an error had been noted. -/
def ScenarioResult.overruled (r : ScenarioResult) : Bool :=
  r.error.isSome && r.stage == .aborted && r.statuses.all (· != .failed)

/-- All the hooks of a phase passed. -/
def HookResult.allPassed (phase : HookPhase) (rs : List HookResult) : Prop :=
  ∀ r ∈ rs, r.phase = phase → r.status = .passed

instance (phase : HookPhase) (rs : List HookResult) : Decidable (HookResult.allPassed phase rs) :=
  inferInstanceAs (Decidable (∀ r ∈ rs, r.phase = phase → r.status = .passed))

/-- What a result tells, compared with one that was shown before. -/
structure ScenarioResult.Foretold (shown r : ScenarioResult) : Prop where
  steps : r.steps = shown.steps
  error : r.error = shown.error
  hooks : shown.hooks <+: r.hooks
  status : r.status = shown.status ↔ r.overruled = false

/-- The result of a scenario that a call brings with it. -/
def Call.scenarioShown : Call → Option ScenarioResult
  | ⟨_, [.value _, .scope (.scenario sc)]⟩ => sc.result
  | _ => none

namespace Executor
variable {x : Executor} {c : Case} {l l' : Ledger} {t : Trace} {scope : Scope}

/-- What a cleanup adds to a ledger: hooks, and their first error. -/
structure Adds (l l' : Ledger) : Prop where
  steps : l'.steps = l.steps
  hooks : ∃ more, l'.hooks = l.hooks ++ more ∧ (∀ r ∈ more, r.phase = .afterScenario) ∧
    ((∀ r ∈ more, r.status = .passed) → l'.firstError = l.firstError)

theorem Adds.refl (l : Ledger) : Adds l l := ⟨rfl, [], by simp⟩

theorem Adds.trans {l₁ : Ledger} (h : Adds l l₁) (h' : Adds l₁ l') : Adds l l' := by
  obtain ⟨hsteps, more, hmore, hphase, herror⟩ := h
  obtain ⟨hsteps', more', hmore', hphase', herror'⟩ := h'
  refine ⟨hsteps'.trans hsteps, more ++ more', ?_, List.forall_mem_append.2 ⟨hphase, hphase'⟩, ?_⟩
  · rw [hmore', hmore, List.append_assoc]
  · intro hall
    obtain ⟨hfirst, hsecond⟩ := List.forall_mem_append.1 hall
    rw [herror' hsecond, herror hfirst]

/-- A hook that passed has no error. -/
theorem error_of_passed {h : Hook} {f : Option Fault} (hp : (x.hookResult c h f).status = .passed) :
    (x.hookResult c h f).error = none := by
  cases f with
  | none => rfl
  | some f => cases hf : f.family <;> simp [hookResult, countsAs, hf] at hp

/-- In a cleanup hooks are added, and whoever is called is called with its scope. -/
def Shown (scope : Scope) (l : Ledger) (t : Trace) (_ : Option Fault) (l' : Ledger) : Prop :=
  Adds l l' ∧ ∀ k ∈ t.calls, ∃ v, k.args = [.value v, .scope scope]

theorem hookActs_shown : HookActs x c (Shown scope) (fun args => ∃ v, args = [.value v, .scope scope])
    (· = .afterScenario) where
  refl l := ⟨.refl l, List.forall_mem_nil _⟩
  trans h h' := by
    refine ⟨h.1.trans h'.1, ?_⟩
    rw [Trace.calls_append]
    exact List.forall_mem_append.2 ⟨h.2, h'.2⟩
  offstage ht _ := by
    refine ⟨.refl _, ?_⟩
    rw [Trace.calls_of_offstage ht]
    exact List.forall_mem_nil _
  call callable args place hargs := by
    intro l t o l' h
    obtain ⟨f, m, u, rfl, hu, rfl, _⟩ := ends_invoke h
    refine ⟨⟨rfl, [], by simp [Ledger.strike]⟩, ?_⟩
    have hcalls : Trace.calls (⟨.call callable args, f, m⟩ :: u) = ⟨callable, args⟩ :: Trace.calls u :=
      rfl
    rw [hcalls, Trace.calls_of_offstage hu]
    exact List.forall_mem_singleton.2 hargs
  hook h f hphase := by
    intro l t o l' hr
    obtain ⟨rfl, hh⟩ := ends_recordHook hr
    refine ⟨⟨rfl, [x.hookResult c h f], rfl, List.forall_mem_singleton.2 hphase, fun hall => ?_⟩, ?_⟩
    · rw [Ledger.addHook, Ledger.noteError, error_of_passed (hall _ (List.mem_singleton_self _)),
        Option.or_none]
    · rw [hh.calls]
      exact List.forall_mem_nil _

/-- The hooks after a scenario are shown the result that the ledger makes before they are called. -/
theorem shown_cleanUp {a : Arena} {o : Except Fault Unit} (ha : a.nodes ≠ [])
    (h : Ends (x.cleanUp c a) l t o l') :
    Shown (.scenario (c.scope (some (c.result l .runningAfterHooks)))) l t (errorIn o) l' := by
  have hstage : ∀ {u : Trace} {e : Option Fault} {l₁ : Ledger},
      x.Hands (.stage ⟨c.id, .runningAfterHooks, none, none⟩) u e →
        Shown (.scenario (c.scope (some (c.result l .runningAfterHooks)))) l₁ u e l₁ := by
    intro u e l₁ hu
    refine ⟨.refl _, ?_⟩
    rw [hu.calls]
    exact List.forall_mem_nil _
  rcases ends_bind_iff.1 h with ⟨u, v, _, l₁, rfl, hs, hk⟩ | ⟨e, rfl, hs⟩
  · obtain ⟨rfl, hu⟩ := ends_transition hs
    rw [ends_get_bind_iff] at hk
    obtain ⟨r, rfl, hrun⟩ := ends_bind_pure_iff.1 hk
    rw [errorIn_map]
    refine (hookActs_shown (x := x) (c := c)).trans (hstage hu) ?_
    exact hookActs_shown.runHooks (fun _ _ l => ⟨.refl l, List.forall_mem_nil _⟩) rfl ha rfl
      (fun v => ⟨v, rfl⟩) hrun
  · obtain ⟨rfl, hu⟩ := ends_transition hs
    exact hstage hu

/-- Hooks that passed do not make a result any worse. -/
theorem worst_of_adds {more : List HookResult} (hsteps : l'.steps = l.steps)
    (hmore : l'.hooks = l.hooks ++ more) (hpassed : ∀ r ∈ more, r.status = .passed) :
    Status.worst .passed l'.statuses = Status.worst .passed l.statuses := by
  have hmem : ∀ k, k ∈ l'.statuses ↔
      k ∈ l.statuses ∨ k ∈ more.map (·.status) := by
    intro k
    rw [Ledger.statuses, hmore, hsteps, List.map_append, Ledger.statuses]
    simp only [List.mem_append]
    exact or_right_comm
  refine Status.worst_eq_of_mem (fun k hk => ?_) fun k hk => .inl ((hmem k).2 (.inl hk))
  refine ((hmem k).1 hk).imp_right fun hk => ?_
  obtain ⟨r, hr, rfl⟩ := List.mem_map.1 hk
  exact hpassed r hr

/-- Of two ledgers, one of which adds hooks that passed to the other. -/
theorem foretold_of_adds {stage : Stage} (h : Adds l l')
    (hall : HookResult.allPassed .afterScenario l'.hooks) :
    (c.result l .runningAfterHooks).Foretold (c.result l' stage) := by
  obtain ⟨hsteps, more, hmore, hphase, herror⟩ := h
  have hpassed : ∀ r ∈ more, r.status = .passed :=
    fun r hr => hall r (hmore ▸ List.mem_append_right _ hr) (hphase r hr)
  refine ⟨hsteps, herror hpassed, ⟨more, hmore.symm⟩, ?_⟩
  have hshown : (c.result l .runningAfterHooks).status = Status.worst .passed l'.statuses := by
    simp [Case.result, worst_of_adds hsteps hmore hpassed]
  have hresult : (c.result l' stage).status =
      if l'.firstError.isSome && stage == .aborted then .failed else Status.worst .passed l'.statuses := rfl
  have hoverruled : (c.result l' stage).overruled =
      (l'.firstError.isSome && stage == .aborted && l'.statuses.all (· != .failed)) := rfl
  have hfailed : .failed = Status.worst .passed l'.statuses ↔ .failed ∈ l'.statuses :=
    Status.isWorstOf_iff.symm.trans Status.isWorstOf_failed_iff
  rw [hshown, hresult, hoverruled]
  cases hab : l'.firstError.isSome && stage == .aborted with
  | true =>
    rw [if_pos rfl, hfailed]
    simp
  | false => simp

/-- What a hook after the scenario is shown, and what the cleanup makes of it. -/
theorem adds_of_mem {a : Arena} {k : Call} {shown : ScenarioResult} {o : Except Fault Unit}
    (ha : a.nodes ≠ []) (h : Ends (x.cleanUp c a) l t o l') (hk : k ∈ t.calls)
    (hshown : k.scenarioShown = some shown) : shown = c.result l .runningAfterHooks ∧ Adds l l' := by
  obtain ⟨hadds, hcalls⟩ := shown_cleanUp ha h
  obtain ⟨v, hargs⟩ := hcalls k hk
  rcases k with ⟨callable, _⟩
  cases hargs
  exact ⟨(Option.some.inj hshown).symm, hadds⟩

theorem cleansUp_of_shown {k : Call} {shown : ScenarioResult} (h : k.scenarioShown = some shown) :
    k.cleansUp = true := by
  unfold Call.scenarioShown at h
  split at h
  · simp [Call.cleansUp, h]
  · cases h

/-- Whoever is shown a result of the scenario is told of it as it turns out, unless that is overruled. -/
theorem foretold_of_run {scenario : Scenario} {feature : Option Feature} {id : Option String}
    {r : ScenarioResult} (h : (x.run scenario feature id).Runs t (.ok r))
    (hall : HookResult.allPassed .afterScenario r.hooks) {k : Call} (hk : k ∈ t.calls)
    {shown : ScenarioResult} (hshown : k.scenarioShown = some shown) : shown.Foretold r := by
  have hearly : ∀ {u : Trace}, u.early = true → k ∉ u.calls :=
    fun hu hm => nomatch (Trace.cleansUp_of_early hu hm).symm.trans (cleansUp_of_shown hshown)
  obtain ⟨l', hcase⟩ := runs_run_iff.1 h
  cases caseRun_of_ends hcase with
  | abandoned u w b hs ha habandon =>
    obtain ⟨w₁, w₂, w₃, w₄, l₁, l₂, rfl, hoff, hskip, hclean, hannounce⟩ := ends_abandon habandon
    obtain ⟨_, rfl, _⟩ := ends_announce hannounce
    have hlast : w₄.calls = [] := (closingActs_quiet.announce hannounce).2.1
    have hskipped : w₂.early = true := runActs_early.skipAll hskip
    simp only [Trace.calls_append, List.mem_append, hlast, List.not_mem_nil, or_false] at hk
    have hk := ((hk.resolve_left (hearly (early_setUp hs))).resolve_left
      (hearly (Trace.early_of_offstage hoff))).resolve_left (hearly hskipped)
    cases hb : b.salvaged with
    | none =>
      rw [hb] at hclean
      obtain ⟨rfl, _⟩ := ends_pure_iff.1 hclean
      cases hk
    | some a =>
      rw [hb] at hclean
      obtain ⟨rfl, hadds⟩ := adds_of_mem (ha a hb) hclean hk hshown
      exact foretold_of_adds hadds hall
  | composed u w d hs hd hrun =>
    obtain ⟨w₁, w₂, w₃, w₄, r₁, l₁, l₂, l₃, rfl, hproceed, hrecover, hclean, hconclude⟩ :=
      parts_of_runComposed hrun
    obtain ⟨stage, rfl, _⟩ := ends_conclude hconclude
    have hlast : w₄.calls = [] := (closingActs_quiet.conclude hconclude).2.1
    have hproceeded : w₁.early = true := runActs_early.proceedThrough hd hproceed
    simp only [Trace.calls_append, List.mem_append, hlast, List.not_mem_nil, or_false] at hk
    have hk := ((hk.resolve_left (hearly (early_setUp hs))).resolve_left
      (hearly hproceeded)).resolve_left (hearly (early_recover hrecover))
    obtain ⟨rfl, hadds⟩ := adds_of_mem hd.rooted hclean hk hshown
    exact foretold_of_adds hadds hall

end Executor
end Rehearsal
