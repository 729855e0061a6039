import Rehearsal.Proofs.Severity
import Rehearsal.Proofs.Surroundings

/-! The status of a scenario. It is the most severe one among its hooks and steps, except that a
scenario which was aborted counts as failed when a hook of it was pending, though nothing failed.
A scenario whose contexts were not set up has failed in any case. -/

namespace Rehearsal
set_option autoImplicit false

/-- A hook is never skipped, and it brings an error unless it passed. -/
def HookResult.Sound (r : HookResult) : Prop :=
  r.status ≠ .skipped ∧ (r.error = none ↔ r.status = .passed)

def ScenarioResult.statuses (r : ScenarioResult) : List Status :=
  r.hooks.map (·.status) ++ r.steps.map (·.status)

/-- The first error is there as soon as a hook brings one, or a step that failed. -/
structure Ledger.Sound (l : Ledger) : Prop where
  hooks : ∀ r ∈ l.hooks, r.Sound
  noted : l.firstError ≠ none ↔
    (∃ r ∈ l.hooks, r.error ≠ none) ∨ ∃ r ∈ l.steps, r.status = .failed ∧ r.error ≠ none

namespace Ledger
variable {l : Ledger}

theorem sound_empty : empty.Sound where
  hooks _ hr := absurd hr List.not_mem_nil
  noted := by simp [empty]

theorem Sound.strike (h : l.Sound) (hit : Bool) : (l.strike hit).Sound := ⟨h.hooks, h.noted⟩

theorem Sound.addHook (h : l.Sound) {r : HookResult} (hr : r.Sound) : (l.addHook r).Sound where
  hooks k hk := by
    rcases List.mem_append.1 hk with hk | hk
    · exact h.hooks k hk
    · rw [List.mem_singleton.1 hk]
      exact hr
  noted := by
    have hor : l.firstError.or r.error ≠ none ↔ l.firstError ≠ none ∨ r.error ≠ none := by
      cases l.firstError <;> simp
    simp only [Ledger.addHook, Ledger.noteError, hor, h.noted, List.mem_append,
      List.mem_singleton, or_and_right, exists_or, exists_eq_left]
    exact or_right_comm

theorem Sound.addStep (h : l.Sound) (r : StepResult) : (l.addStep r).Sound where
  hooks := h.hooks
  noted := by
    have hor : l.firstError.or (if r.status == .failed then r.error else none) ≠ none ↔
        l.firstError ≠ none ∨ r.status = .failed ∧ r.error ≠ none := by
      cases l.firstError <;> simp
    simp only [Ledger.addStep, Ledger.noteError, hor, h.noted, List.mem_append,
      List.mem_singleton, or_and_right, exists_or, exists_eq_left]
    exact or_assoc

end Ledger

theorem Case.failed_of_mem {c : Case} {l : Ledger} {stage : Stage} (h : .failed ∈ l.statuses) :
    (c.result l stage).status = .failed := by
  rw [Case.result]
  split
  · rfl
  · exact (Status.isWorstOf_iff.1 (Status.isWorstOf_failed_iff.2 h)).symm

theorem Case.status_result {c : Case} {l : Ledger} (h : l.Sound) (stage : Stage) :
    (c.result l stage).status =
      if stage = .aborted ∧ ∃ k ∈ l.hooks, k.status = .pending then .failed
      else Status.worst .passed l.statuses := by
  have hpending : (∃ k ∈ l.hooks, k.status = .pending) → l.firstError ≠ none := by
    rintro ⟨k, hk, hp⟩
    refine h.noted.2 (.inl ⟨k, hk, fun he => ?_⟩)
    exact nomatch hp.symm.trans ((h.hooks k hk).2.1 he)
  have hfailed : l.firstError ≠ none → ¬ (∃ k ∈ l.hooks, k.status = .pending) →
      Status.worst .passed l.statuses = .failed := by
    intro he hp
    refine (Status.isWorstOf_iff.1 (Status.isWorstOf_failed_iff.2 ?_)).symm
    rcases h.noted.1 he with ⟨k, hk, hke⟩ | ⟨r, hr, hf, _⟩
    · -- A hook that brings an error neither passed nor was skipped.
      have hs := h.hooks k hk
      have hf : k.status = .failed := by
        cases hkind : k.status with
        | passed => exact absurd (hs.2.2 hkind) hke
        | skipped => exact absurd hkind hs.1
        | pending => exact absurd ⟨k, hk, hkind⟩ hp
        | failed => rfl
      exact List.mem_append_left _ (List.mem_map.2 ⟨k, hk, hf⟩)
    · exact List.mem_append_right _ (List.mem_map.2 ⟨r, hr, hf⟩)
  simp only [Case.result, Bool.and_eq_true, Option.isSome_iff_ne_none, beq_iff_eq]
  by_cases he : l.firstError = none
  · rw [if_neg fun hh => hh.1 he, if_neg fun hh => hpending hh.2 he]
  · by_cases hs : stage = .aborted
    · rw [if_pos ⟨he, hs⟩]
      split
      · rfl
      · rename_i hp
        exact (hfailed he fun hh => hp ⟨hs, hh⟩).symm
    · rw [if_neg fun hh => hs hh.2, if_neg fun hh => hs hh.1]

namespace Executor
variable {x : Executor} {c : Case} {l l' : Ledger} {t : Trace}

theorem sound_hookResult (h : Hook) (f : Option Fault) : (x.hookResult c h f).Sound := by
  rcases f with _ | f
  · simp [HookResult.Sound, hookResult, countsAs]
  · simp only [HookResult.Sound, hookResult, countsAs]
    split <;> simp

def KeepsSound (l : Ledger) (_ : Trace) (_ : Option Fault) (l' : Ledger) : Prop :=
  l.Sound → l'.Sound

theorem acts_keepsSound : Acts x c KeepsSound (fun _ => True) (fun _ => True) where
  refl _ := id
  trans h h' hl := h' (h hl)
  offstage _ _ := id
  call callable args place _ := by
    intro l t o l' h hl
    obtain ⟨f, m, u, rfl, _, rfl, _⟩ := ends_invoke h
    exact hl.strike _
  hook k f _ := by
    intro l t o l' h hl
    obtain ⟨rfl, _⟩ := ends_recordHook h
    exact hl.addHook (sound_hookResult k f)
  stray _ _ _ := id

theorem keepsSound_stage (stage : Stage) (index : Option Int) :
    Upholds KeepsSound (x.transition c stage index) := by
  intro l t o l' h hl
  obtain ⟨rfl, _⟩ := ends_transition h
  exact hl

theorem runActs_keepsSound : RunActs x c KeepsSound (fun _ => True) (fun _ => True) := by
  refine acts_keepsSound.toRunActs (fun r => ?_) keepsSound_stage
  intro l t o l' h hl
  obtain ⟨rfl, _⟩ := ends_recordStep h
  exact hl.addStep r

theorem sound_recover {r : Except Fault Unit} {o : Except Fault (Except Fault Unit)}
    (hl : l.Sound) (h : Ends (x.recover c r) l t o l') : l'.Sound := by
  obtain ⟨r', _, ⟨_, _, rfl, _⟩ | ⟨f, _, _, ⟨u, v, l₁, rfl, hi, hs⟩ | ⟨g, _, hi⟩⟩⟩ := ends_recover h
  · exact hl
  · obtain ⟨rfl, _⟩ := ends_interrupt hi
    exact runActs_keepsSound.skipRemaining hs (hl.strike true)
  · obtain ⟨rfl, _⟩ := ends_interrupt hi
    exact hl.strike true

/-- What a scenario comes to on its contexts is read off a ledger that tells of its failures. -/
theorem sound_runComposed {d : DispatchTable} {r : ScenarioResult} (hd : d.Fit) (hl : l.Sound)
    (h : Ends (x.runComposed c d) l t (.ok r) l') :
    ∃ l₁ stage, l₁.Sound ∧ r = c.result l₁ stage := by
  obtain ⟨_, _, _, _, r₁, l₁, l₂, l₃, _, hproceed, hrecover, hclean, hconclude⟩ :=
    parts_of_runComposed h
  have h₁ : l₁.Sound := runActs_keepsSound.proceedThrough hd hproceed hl
  have h₂ : l₂.Sound := sound_recover h₁ hrecover
  have h₃ : l₃.Sound :=
    acts_keepsSound.cleanUp hd.rooted trivial (keepsSound_stage _ _) (fun _ _ => trivial) hclean h₂
  obtain ⟨stage, rfl, _⟩ := ends_conclude hconclude
  exact ⟨l₃, stage, h₃, rfl⟩

/-- The status of a prepared scenario. It is the most severe one of its hooks and steps exactly when
none of its hooks was pending as it was aborted, unless one of them failed; else it is failed. -/
theorem isWorstOf_status_iff {scenario : Scenario} {feature : Option Feature} {id : Option String}
    {d : DispatchTable} {r : ScenarioResult} (h : (x.run scenario feature id).Runs t (.ok r))
    (hp : x.Prepared (.named scenario feature id) t d) :
    (r.status.IsWorstOf r.statuses ↔
      (r.stage = .aborted → (∃ k ∈ r.hooks, k.status = .pending) → .failed ∈ r.statuses)) ∧
    (r.status = .failed ∨ r.status.IsWorstOf r.statuses) := by
  obtain ⟨l', hc⟩ := runs_run_iff.1 h
  obtain ⟨hd, u, v, rfl, _, hk⟩ := hp.ends hc
  obtain ⟨l, stage, hl, rfl⟩ := sound_runComposed hd Ledger.sound_empty hk
  have hstatus := Case.status_result (c := .named scenario feature id) hl stage
  have hstage : (Case.result (.named scenario feature id) l stage).stage = stage := rfl
  have hhooks : (Case.result (.named scenario feature id) l stage).hooks = l.hooks := rfl
  have hstatuses : (Case.result (.named scenario feature id) l stage).statuses = l.statuses := rfl
  rw [hstatus, hstage, hhooks, hstatuses]
  by_cases hcase : stage = .aborted ∧ ∃ k ∈ l.hooks, k.status = .pending
  · rw [if_pos hcase, Status.isWorstOf_failed_iff]
    exact ⟨⟨fun hf _ _ => hf, fun hh => hh hcase.1 hcase.2⟩, .inl rfl⟩
  · rw [if_neg hcase]
    have hworst := Status.isWorstOf_iff.2 (Eq.refl (Status.worst .passed l.statuses))
    exact ⟨iff_of_true hworst fun hs hk => absurd ⟨hs, hk⟩ hcase, .inr hworst⟩

/-- A hook before the scenario is pending, and the sink interrupts the run before its first step: the
scenario counts as failed, though its steps are skipped and nothing failed. -/
theorem isWorstOf_status_iff_sample :
    let x := Sample.executor [Sample.hook .beforeScenario 1 "reserve"]
    let w := Sample.surroundings
      (fun n => if n = 3 then some (.ofKind "KeyboardInterrupt" "") else none)
      fun n => if n = 1 then some (.ofKind "PendingStep" "not yet") else none
    ∃ r, w.resultOf (x.run Sample.scenario none none) = .ok r ∧ r.status = .failed ∧
      r.statuses = [.pending, .skipped, .skipped] ∧ ¬ r.status.IsWorstOf r.statuses := by
  intro x w
  have hc : compose x.root = _ := compose_leaf ..
  have hview : (w.resultOf (x.run Sample.scenario none none)).toOption.map
      (fun r => (r.stage, r.hooks.map (·.status), r.statuses)) =
        some (.aborted, [.pending], [.pending, .skipped, .skipped]) := by
    unfold Surroundings.resultOf Executor.run Executor.runCase Executor.setUp
    rw [hc]
    decide +kernel
  obtain ⟨r, hr, hview⟩ := Option.map_eq_some_iff.1 hview
  simp only [Prod.mk.injEq] at hview
  obtain ⟨hstage, hhooks, hstatuses⟩ := hview
  have hok : w.resultOf (x.run Sample.scenario none none) = .ok r := by
    cases hres : w.resultOf (x.run Sample.scenario none none) with
    | ok s =>
      rw [hres] at hr
      exact congrArg Except.ok (Option.some.inj hr)
    | error f =>
      rw [hres] at hr
      cases hr
  have hrun : (x.run Sample.scenario none none).Runs (w.traceOf (x.run Sample.scenario none none))
      (.ok r) := hok ▸ w.runs_traceOf _
  obtain ⟨hiff, hor⟩ := isWorstOf_status_iff hrun (Sample.prepared rfl)
  have hpending : ∃ k ∈ r.hooks, k.status = .pending := by
    have hmem : Status.pending ∈ r.hooks.map (·.status) := by
      rw [hhooks]
      exact List.mem_cons_self
    exact List.mem_map.1 hmem
  have hnot : ¬ r.status.IsWorstOf r.statuses := by
    intro hworst
    have hfailed := hiff.1 hworst hstage hpending
    rw [hstatuses] at hfailed
    exact absurd hfailed (by decide)
  exact ⟨r, hok, hor.resolve_right hnot, hstatuses, hnot⟩

end Executor
end Rehearsal
