import Rehearsal.Proofs.Scenario.Grade
import Rehearsal.Proofs.Scenario.Requests

/-! Why a scenario failed. A hook that fails brings an error, and so does a step, unless no definition
took its text and the policy counts that as a failure: such a step fails without an error. A scenario
reports the first error of a hook or of a step that failed, so it fails without one only where it has a
step of that kind. This is so of what is handed over, of what hooks are shown, and of the result. -/

namespace Rehearsal
set_option autoImplicit false

/-- A step failed without an error just where it is undefined and that counts as a failure. A step that
passed or was skipped has none. -/
structure StepResult.Explained (undefinedFails : Bool) (r : StepResult) : Prop where
  unsaid : r.status = .failed ∧ r.error = none ↔ r.undefined = true ∧ undefinedFails = true
  calm : r.status = .passed ∨ r.status = .skipped → r.error = none

/-- Where nothing brought an error, a scenario failed just if one of its steps is undefined and that counts
as a failure. -/
structure ScenarioResult.Explained (undefinedFails : Bool) (r : ScenarioResult) : Prop where
  unsaid : r.error = none →
    (r.status = .failed ↔ ∃ k ∈ r.steps, k.undefined = true ∧ undefinedFails = true)
  steps : ∀ k ∈ r.steps, k.Explained undefinedFails
  hooks : ∀ k ∈ r.hooks, k.Sound

structure FeatureResult.Explained (undefinedFails : Bool) (r : FeatureResult) : Prop where
  scenarios : ∀ k ∈ r.scenarios, k.Explained undefinedFails
  hooks : ∀ k ∈ r.hooks, k.Sound

structure SuiteResult.Explained (undefinedFails : Bool) (r : SuiteResult) : Prop where
  features : ∀ k ∈ r.features, k.Explained undefinedFails
  hooks : ∀ k ∈ r.hooks, k.Sound

/-- The results that a record holds say why they failed. -/
def Record.Explained (undefinedFails : Bool) : Record → Prop
  | stage _ | error _ => True
  | step r => r.Explained undefinedFails
  | hook r => r.Sound
  | scenario r => r.Explained undefinedFails
  | feature r => r.Explained undefinedFails
  | suite r => r.Explained undefinedFails

/-- The result that a hook is shown, if any, says why it failed. -/
def Scope.Explained (undefinedFails : Bool) : Scope → Prop
  | suite _ r => ∀ k, r = some k → k.Explained undefinedFails
  | feature _ r => ∀ k, r = some k → k.Explained undefinedFails
  | scenario s => ∀ k, s.result = some k → k.Explained undefinedFails
  | step s => (∀ k, s.scenario.result = some k → k.Explained undefinedFails) ∧
      ∀ k, s.result = some k → k.Explained undefinedFails

/-- There is nothing to say of a result that is not shown. -/
theorem Scope.all_of_none {α : Type} {P : α → Prop} {r : Option α} (h : r = none) :
    ∀ k, r = some k → P k := fun _ hk => nomatch h.symm.trans hk

/-- Whatever results are handed over with a request say why they failed. -/
def Request.Explained (undefinedFails : Bool) : Request → Prop
  | emit r => r.Explained undefinedFails
  | call _ args => ∀ scope, .scope scope ∈ args → scope.Explained undefinedFails
  | _ => True

def Request.explaining (undefinedFails : Bool) : Terms Request.Answer Fault :=
  .asking (Request.Explained undefinedFails)

/-- The results of a ledger say why they failed, and without a first error there is none in them. -/
structure Ledger.Explained (undefinedFails : Bool) (l : Ledger) : Prop where
  steps : ∀ k ∈ l.steps, k.Explained undefinedFails
  hooks : ∀ k ∈ l.hooks, k.Sound
  noted : l.firstError = none →
    (∀ k ∈ l.hooks, k.error = none) ∧ ∀ k ∈ l.steps, k.status = .failed → k.error = none

variable {b : Bool}

theorem StepResult.explained_skipped (scenarioId : String) (index : Nat) (s : Step) :
    (skipped scenarioId index s).Explained b :=
  ⟨by simp [skipped], fun _ => rfl⟩

theorem HookResult.Sound.error_ne_none {r : HookResult} (h : r.Sound) (hr : r.status = .failed) :
    r.error ≠ none := fun he => nomatch hr.symm.trans (h.2.1 he)

namespace Ledger
variable {l : Ledger}

theorem explained_empty : empty.Explained b :=
  ⟨List.forall_mem_nil _, List.forall_mem_nil _, fun _ => ⟨List.forall_mem_nil _, List.forall_mem_nil _⟩⟩

theorem Explained.noteError (h : l.Explained b) (e : Option ErrorInfo) : (l.noteError e).Explained b :=
  ⟨h.steps, h.hooks, fun he => h.noted (Option.or_eq_none_iff.1 he).1⟩

theorem Explained.addHook (h : l.Explained b) {r : HookResult} (hr : r.Sound) :
    (l.addHook r).Explained b where
  steps := h.steps
  hooks := List.forall_mem_append.2 ⟨h.hooks, List.forall_mem_singleton.2 hr⟩
  noted he := by
    obtain ⟨hfirst, hrest⟩ := Option.or_eq_none_iff.1 he
    obtain ⟨hhooks, hsteps⟩ := h.noted hfirst
    exact ⟨List.forall_mem_append.2 ⟨hhooks, List.forall_mem_singleton.2 hrest⟩, hsteps⟩

theorem Explained.addStep (h : l.Explained b) {r : StepResult} (hr : r.Explained b) :
    (l.addStep r).Explained b where
  steps := List.forall_mem_append.2 ⟨h.steps, List.forall_mem_singleton.2 hr⟩
  hooks := h.hooks
  noted he := by
    obtain ⟨hfirst, hrest⟩ := Option.or_eq_none_iff.1 he
    obtain ⟨hhooks, hsteps⟩ := h.noted hfirst
    refine ⟨hhooks, List.forall_mem_append.2 ⟨hsteps, List.forall_mem_singleton.2 fun hf => ?_⟩⟩
    rwa [hf, if_pos (beq_self_eq_true _)] at hrest

/-- Some hook of the ledger failed. -/
def Failing (l : Ledger) : Prop := ∃ k ∈ l.hooks, k.status = .failed

/-- The last hook of the ledger failed. -/
def Halted (l : Ledger) : Prop := ∃ k, l.hooks.getLast? = some k ∧ k.status = .failed

theorem Failing.lastFailure (h : l.Failing) (hl : l.Explained b) : l.lastFailure ≠ none := by
  obtain ⟨k, hk, hf⟩ := h
  rw [Ledger.lastFailure]
  cases hfind : l.hooks.reverse.find? (·.status == .failed) with
  | none => exact absurd hf (by simpa using List.find?_eq_none.1 hfind k (List.mem_reverse.2 hk))
  | some k' =>
    have hm : k' ∈ l.hooks := List.mem_reverse.1 (List.mem_of_find?_eq_some hfind)
    exact (hl.hooks k' hm).error_ne_none (by simpa using List.find?_some hfind)

theorem Halted.lastError (h : l.Halted) (hl : l.Explained b) :
    (l.hooks.getLast?).bind (·.error) ≠ none := by
  obtain ⟨k, hk, hf⟩ := h
  rw [hk]
  exact (hl.hooks k (List.mem_of_getLast? hk)).error_ne_none hf

end Ledger

theorem Case.explained_result {c : Case} {l : Ledger} (h : l.Explained b) (stage : Stage) :
    (c.result l stage).Explained b := by
  refine ⟨fun he => ?_, h.steps, h.hooks⟩
  have he : l.firstError = none := he
  obtain ⟨hhooks, hsteps⟩ := h.noted he
  constructor
  · intro hf
    rw [Case.result, he] at hf
    have hmem : Status.failed ∈ l.statuses :=
      Status.isWorstOf_failed_iff.1 (Status.isWorstOf_iff.2 hf.symm)
    rcases List.mem_append.1 hmem with hm | hm
    · obtain ⟨k, hk, hf⟩ := List.mem_map.1 hm
      exact absurd (hhooks k hk) ((h.hooks k hk).error_ne_none hf)
    · obtain ⟨k, hk, hf⟩ := List.mem_map.1 hm
      exact ⟨k, hk, (h.steps k hk).unsaid.1 ⟨hf, hsteps k hk hf⟩⟩
  · rintro ⟨k, hk, hu⟩
    have hf := ((h.steps k hk).unsaid.2 hu).1
    exact Case.failed_of_mem (List.mem_append_right _ (List.mem_map.2 ⟨k, hk, hf⟩))

namespace Executor
variable {x : Executor} {c : Case}

/-- What the executor asks for says why it failed. -/
abbrev explaining (x : Executor) : Terms Request.Answer Fault := Request.explaining x.policy.undefinedFails

/-- The ledger of a run of the executor says why it failed. -/
abbrev Explains (x : Executor) : Ledger → Prop := Ledger.Explained x.policy.undefinedFails

variable {P : Ledger → Prop}

theorem secures_emit {r : Record} (hr : r.Explained x.policy.undefinedFails) :
    Secures x.explaining x.Explains P (fun _ => P) (x.emit r) := by
  unfold emit
  split
  · exact secures_bind (Effect.secures_perform hr) fun f => Effect.secures_proceed f
  · exact secures_pure fun _ _ => id

theorem secures_log {level : LogLevel} {message : String} {fields : List (String × Datum)} :
    Secures x.explaining x.Explains P (fun _ => P) (x.log level message fields) :=
  Effect.secures_log fun _ => trivial

theorem minds_stopped : Minds x.explaining x.Explains x.stopped := by
  refine secures_bind secures_get fun l => ?_
  split
  · exact (minds_pure _).imp
  · split
    · have hask : Secures x.explaining x.Explains (fun _ => True) (fun _ _ => True) Effect.aborted :=
        Effect.secures_perform (r := .aborted) trivial
      exact Minds.imp hask
    · exact (minds_pure _).imp

/-- That a run was interrupted says nothing of its results. -/
theorem secures_interrupt (hP : ∀ l, P l → P { l with interrupted := true }) {place : String} :
    Secures x.explaining x.Explains P (fun _ => P) (x.interrupt c place) := by
  refine secures_bind (secures_modify (Q := fun _ => P) fun l hl hp =>
    ⟨⟨hl.steps, hl.hooks, hl.noted⟩, hP l hp⟩) fun _ => ?_
  split
  · exact secures_bind (Effect.secures_perform (r := .abort _) trivial) fun _ => secures_log
  · exact secures_log

/-- What a call comes to brings an error unless it passed, and is never skipped. -/
theorem secures_invoke (hP : ∀ l, P l → P { l with interrupted := true }) {callable : Callable}
    {args : List Argument} {place : String}
    (hargs : ∀ scope, .scope scope ∈ args → scope.Explained x.policy.undefinedFails) :
    Secures x.explaining x.Explains P
      (fun r l => (r.1 ≠ .skipped ∧ (r.2 = none ↔ r.1 = .passed)) ∧ P l)
      (x.invoke c callable args place) := by
  refine secures_bind (Effect.secures_perform hargs) fun f => ?_
  change Option Fault at f
  rcases f with _ | f
  · exact secures_pure fun _ _ h => ⟨by simp, h⟩
  dsimp only
  split
  · exact secures_pure fun _ _ h => ⟨by simp, h⟩
  · exact secures_bind secures_log fun _ => secures_pure fun _ _ h => ⟨by simp, h⟩
  · exact secures_bind (secures_interrupt hP) fun _ => secures_pure fun _ _ h => ⟨by simp, h⟩
  · exact secures_throw

/-- A hook that failed is the last of the ledger from then on. -/
theorem secures_runHook {p : Prop} {a : Arena} {scope : Scope} {h : Hook}
    (hscope : scope.Explained x.policy.undefinedFails) :
    Secures x.explaining x.Explains (fun l => p → l.Failing)
      (fun status l => (p ∨ status = .failed → l.Failing) ∧ (status = .failed → l.Halted))
      (x.runHook c a scope h) := by
  refine secures_bind (Effect.secures_settle _) fun i => ?_
  refine secures_bind (secures_invoke (fun _ => id) fun scope' hm => ?_) fun r => ?_
  · have hm : scope' = scope := by simpa using hm
    exact hm ▸ hscope
  refine secures_of_known (fun _ _ h => h.1) fun hr => ?_
  have hrecord : Secures x.explaining x.Explains (fun l => p → l.Failing)
      (fun _ l => (p ∨ r.1 = .failed → l.Failing) ∧ (r.1 = .failed → l.Halted))
      (x.recordHook ⟨h.phase, h.name, r.1, some c.id, r.2, noDuration⟩) := by
    refine secures_bind (secures_modify fun l hl hp => ⟨hl.addHook hr, ?_, ?_⟩) fun _ => secures_emit hr
    · rintro (hp' | hf)
      · obtain ⟨k, hk, hf⟩ := hp hp'
        exact ⟨k, List.mem_append_left _ hk, hf⟩
      · exact ⟨_, List.mem_append_right _ (List.mem_singleton_self _), hf⟩
    · exact fun hf => ⟨_, List.getLast?_concat, hf⟩
  exact secures_bind (hrecord.imp (fun _ h => h.2) fun _ _ _ => id) fun _ => secures_pure fun _ _ => id

theorem secures_runHookList {p : Prop} {a : Arena} {scope : Scope} {halt : Bool} {hs : List Hook}
    (hscope : scope.Explained x.policy.undefinedFails) :
    Secures x.explaining x.Explains (fun l => p → l.Failing)
      (fun clean l => (p ∨ clean = false → l.Failing) ∧ (halt = true → clean = false → l.Halted))
      (x.runHookList c a scope halt hs) := by
  induction hs generalizing p with
  | nil => exact secures_pure fun _ _ hp => ⟨fun h => hp (h.resolve_right nofun), nofun⟩
  | cons h hs ih =>
    rw [runHookList]
    refine secures_bind (secures_runHook hscope) fun status => ?_
    split
    · rename_i hstatus
      have hf : status = .failed := eq_of_beq hstatus
      split
      · rename_i hgo
        refine secures_bind ((ih (p := True)).imp (fun l hl _ => hl.1 (.inr hf)) fun _ _ _ => id) fun _ => ?_
        exact secures_pure fun _ _ hl => ⟨fun _ => hl.1 (.inl trivial), fun hh => by simp [hh] at hgo⟩
      · exact secures_pure fun _ _ hl => ⟨fun _ => hl.1 (.inr hf), fun _ _ => hl.2 hf⟩
    · exact ih.imp (fun l hl hp => hl.1 (.inl hp)) fun _ _ _ => id

/-- Where hooks did not all go well one of them is in the ledger, at its end if they were to halt. -/
theorem secures_runHooks {phase : HookPhase} {a : Arena} {scope : Scope} {halt : Bool}
    (hscope : scope.Explained x.policy.undefinedFails) :
    Secures x.explaining x.Explains (fun _ => True)
      (fun clean l => (clean = false → l.Failing) ∧ (halt = true → clean = false → l.Halted))
      (x.runHooks phase c a scope halt) := by
  refine secures_bind (Effect.secures_settle _) fun _ => ?_
  exact (secures_runHookList (p := False) hscope).imp (fun _ _ => False.elim)
    fun _ _ _ h => ⟨fun hc => h.1 (.inr hc), h.2⟩

theorem secures_tell {text : String} {patterns : List String} :
    Secures x.explaining x.Explains P (fun _ => P) (x.tell text patterns) := by
  unfold tell
  split
  · exact secures_pure fun _ _ => id
  · split
    · exact secures_pure fun _ _ => id
    · exact secures_bind (Effect.secures_perform trivial) fun f => Effect.secures_proceed f
    · exact secures_log

/-- How a step went says why it failed. -/
structure Verdict.Explained (undefinedFails : Bool) (v : Verdict) : Prop where
  unsaid : v.status = .failed ∧ v.error = none ↔ v.undefined = true ∧ undefinedFails = true
  calm : v.status = .passed ∨ v.status = .skipped → v.error = none

theorem Verdict.explained_of_error {undefinedFails : Bool} {pattern : Option String} {e : Option ErrorInfo}
    (he : e ≠ none) : Verdict.Explained undefinedFails ⟨.failed, pattern, false, e⟩ :=
  ⟨by simp [he], by simp⟩

theorem Verdict.explained_of_called {undefinedFails : Bool} {pattern : Option String}
    {r : Status × Option ErrorInfo} (hr : r.1 ≠ .skipped ∧ (r.2 = none ↔ r.1 = .passed)) :
    Verdict.Explained undefinedFails ⟨r.1, pattern, false, r.2⟩ := by
  refine ⟨⟨?_, fun h => nomatch h.1⟩, fun hp => hr.2.2 (hp.resolve_right hr.1)⟩
  exact fun ⟨hf, he⟩ => nomatch hf.symm.trans (hr.2.1 he)

/-- An undefined step is the only one that can fail without an error. -/
theorem secures_undefinedVerdict {s : Step} :
    Secures x.explaining x.Explains P (fun v _ => v.Explained x.policy.undefinedFails)
      (x.undefinedVerdict c s) := by
  refine secures_bind secures_log fun _ => secures_pure fun _ _ _ => ⟨?_, ?_⟩
  · cases x.policy.undefinedFails <;> simp
  · exact fun _ => rfl

theorem secures_dispatch {d : DispatchTable} {s : Step} :
    Secures x.explaining x.Explains P (fun v _ => v.Explained x.policy.undefinedFails)
      (x.dispatch c d s) := by
  refine secures_bind secures_tell fun _ => ?_
  split
  · split
    · exact secures_pure fun _ _ _ => Verdict.explained_of_error nofun
    · exact secures_throw
  · exact secures_undefinedVerdict
  · rename_i m _
    split
    · exact secures_throw
    · rename_i target _
      have hargs : ∀ scope, .scope scope ∈ stepArguments target m.args s.argument →
          scope.Explained x.policy.undefinedFails := fun scope hm => by simp [stepArguments] at hm
      refine secures_bind ((secures_invoke (P := fun _ => True) (fun _ => id) hargs).imp
        (fun _ _ => trivial) fun _ _ _ => id) fun r => ?_
      exact secures_pure fun _ _ hr => Verdict.explained_of_called hr.1

theorem secures_attempt {d : DispatchTable} {index : Nat} {s : Step} :
    Secures x.explaining x.Explains (fun _ => True) (fun v _ => v.Explained x.policy.undefinedFails)
      (x.attempt c d index s) := by
  refine secures_bind (secures_runHooks ⟨Scope.all_of_none rfl, Scope.all_of_none rfl⟩) fun ready => ?_
  split
  · exact secures_dispatch
  · rename_i hready
    refine secures_bind secures_get fun l => secures_pure fun l' hl h => ?_
    obtain ⟨rfl, _, hhalt⟩ := h
    exact Verdict.explained_of_error ((hhalt rfl (Bool.eq_false_iff.2 hready)).lastError hl)

theorem secures_review {d : DispatchTable} {index : Nat} {s : Step} {v : Verdict}
    (hv : v.Explained x.policy.undefinedFails) :
    Secures x.explaining x.Explains (fun _ => True) (fun v _ => v.Explained x.policy.undefinedFails)
      (x.review c d index s v) := by
  have hshown : (stepScope c index s (some (stepResult c index s v))).Explained x.policy.undefinedFails :=
    ⟨Scope.all_of_none rfl, fun k hk => Option.some.inj hk ▸ ⟨hv.unsaid, hv.calm⟩⟩
  refine secures_bind (secures_runHooks hshown) fun clean => ?_
  split
  · rename_i hcase
    simp only [Bool.and_eq_true, Bool.not_eq_true', bne_iff_ne, ne_eq] at hcase
    refine secures_bind secures_get fun l => secures_pure fun l' hl h => ?_
    obtain ⟨rfl, hfailing, _⟩ := h
    have he := (hfailing hcase.1).lastFailure hl
    refine ⟨⟨fun h => absurd h.2 he, fun h => absurd (hv.unsaid.2 h).1 hcase.2⟩, by simp⟩
  · exact secures_pure fun _ _ _ => hv

theorem secures_recordStep {r : StepResult} (hr : r.Explained x.policy.undefinedFails) :
    Minds x.explaining x.Explains (x.recordStep r) :=
  secures_bind (secures_modify fun _ hl _ => ⟨hl.addStep hr, trivial⟩) fun _ => secures_emit hr

theorem minds_runStep {d : DispatchTable} {index : Nat} {s : Step} :
    Minds x.explaining x.Explains (x.runStep c d index s) := by
  refine secures_bind_value secures_attempt fun v hv => ?_
  refine secures_bind_value (secures_review hv) fun v hv => ?_
  have hr : (stepResult c index s v).Explained x.policy.undefinedFails := ⟨hv.unsaid, hv.calm⟩
  exact minds_bind (secures_recordStep hr) fun _ => minds_pure _

theorem minds_skipAll {index : Nat} {ss : List Step} :
    Minds x.explaining x.Explains (x.skipAll c index ss) := by
  induction ss generalizing index with
  | nil => exact minds_pure _
  | cons s ss ih => exact minds_bind (secures_recordStep (StepResult.explained_skipped _ _ _)) fun _ => ih

theorem minds_runSteps {d : DispatchTable} {index : Nat} {skip : Bool} {ss : List Step} :
    Minds x.explaining x.Explains (x.runSteps c d index skip ss) := by
  induction ss generalizing index skip with
  | nil => exact minds_pure _
  | cons s ss ih =>
    rw [runSteps]
    refine minds_bind ?_ fun stop => ?_
    · split
      · exact minds_pure _
      · exact minds_stopped
    · split
      · exact minds_bind (secures_recordStep (StepResult.explained_skipped _ _ _)) fun _ => ih
      · exact minds_bind (secures_emit trivial) fun _ => minds_bind minds_runStep fun _ => ih

theorem minds_proceedThrough {d : DispatchTable} :
    Minds x.explaining x.Explains (x.proceedThrough c d) := by
  refine minds_bind (secures_emit trivial) fun _ => ?_
  refine secures_bind (secures_runHooks (Scope.all_of_none rfl)) fun _ => ?_
  exact minds_runSteps.imp

theorem minds_cleanUp {a : Arena} : Minds x.explaining x.Explains (x.cleanUp c a) := by
  refine minds_bind (secures_emit trivial) fun _ => secures_bind secures_get fun l => ?_
  refine secures_of_known (p := x.Explains l) (fun _ hl h => h.1 ▸ hl) fun hl => ?_
  have hshown : (Scope.scenario (c.scope (some (c.result l .runningAfterHooks)))).Explained
      x.policy.undefinedFails :=
    fun k hk => Option.some.inj hk ▸ Case.explained_result hl _
  refine secures_bind ((secures_runHooks hshown).imp (fun _ _ => trivial) fun _ _ _ => id) fun _ => ?_
  exact (minds_pure _).imp

theorem minds_recover {r : Except Fault Unit} : Minds x.explaining x.Explains (x.recover c r) := by
  cases r with
  | ok _ => exact minds_pure _
  | error f =>
    rw [recover]
    split
    · have hskip : Minds x.explaining x.Explains (do x.interrupt c "executor"; x.skipRemaining c) :=
        minds_bind (secures_interrupt fun _ => id) fun _ =>
          secures_bind secures_get fun _ => minds_skipAll.imp
      exact (secures_observe hskip).imp (fun _ => id) fun _ _ _ _ => trivial
    · exact minds_pure _

theorem secures_announce {stage : Stage} :
    Secures x.explaining x.Explains (fun _ => True) (fun r _ => r.Explained x.policy.undefinedFails)
      (x.announce c stage) := by
  refine secures_bind secures_get fun l => ?_
  refine secures_of_known (p := x.Explains l) (fun _ hl h => h.1 ▸ hl) fun hl => ?_
  have hr : (c.result l stage).Explained x.policy.undefinedFails := Case.explained_result hl stage
  refine secures_bind (secures_emit trivial) fun _ => ?_
  exact secures_bind (secures_emit hr) fun _ => secures_pure fun _ _ _ => hr

theorem secures_conclude :
    Secures x.explaining x.Explains (fun _ => True) (fun r _ => r.Explained x.policy.undefinedFails)
      (x.conclude c) := by
  refine secures_bind minds_stopped fun _ => secures_bind secures_announce fun r => ?_
  have hwarn : ∀ {P : Ledger → Prop}, Secures x.explaining x.Explains P (fun _ => P) (x.warn c r) := by
    intro P
    unfold warn
    split
    · exact secures_log
    · exact secures_pure fun _ _ => id
  exact secures_bind hwarn fun _ => secures_pure fun _ _ => id

theorem secures_runComposed {d : DispatchTable} :
    Secures x.explaining x.Explains (fun _ => True) (fun r _ => r.Explained x.policy.undefinedFails)
      (x.runComposed c d) := by
  refine secures_bind (Secures.imp (secures_observe minds_proceedThrough) (fun _ => id) fun _ _ _ _ => trivial)
    fun r => secures_bind minds_recover fun r' => secures_bind minds_cleanUp fun _ => ?_
  exact secures_bind (Effect.secures_settle r') fun _ => secures_conclude

theorem secures_abandon {cause : Fault} {salvaged : Option Arena} :
    Secures x.explaining x.Explains (fun _ => True) (fun r _ => r.Explained x.policy.undefinedFails)
      (x.abandon c cause salvaged) := by
  refine secures_bind secures_log fun _ => ?_
  refine secures_bind (secures_modify (Q := fun _ _ => True) fun _ hl _ => ⟨hl.noteError _, trivial⟩) fun _ => ?_
  refine secures_bind minds_skipAll fun _ => secures_bind ?_ fun _ => secures_announce
  cases salvaged with
  | none => exact minds_pure _
  | some a => exact minds_cleanUp

theorem secures_runCase :
    Secures x.explaining x.Explains (fun _ => True) (fun r _ => r.Explained x.policy.undefinedFails)
      (x.runCase c) := by
  have hbuilding : Request.Building x.explaining := ⟨fun _ _ => trivial, fun _ => trivial⟩
  have hsetUp : Minds x.explaining x.Explains (x.setUp c) := by
    refine minds_bind (secures_emit trivial) fun _ => ?_
    refine secures_bind (secures_lift (asks_compose hbuilding x.root)) fun r => ?_
    rcases r with _ | a
    · exact (minds_pure _).imp
    · dsimp only
      split <;> exact (minds_pure _).imp
  refine secures_bind hsetUp fun r => ?_
  rcases r with broken | d
  · dsimp only
    split
    · exact secures_throw
    · exact secures_abandon
  · exact secures_runComposed

/-- All that a run of a scenario asks for says why it failed, and so does its result. -/
theorem asks_run_explained (x : Executor) (scenario : Scenario) (feature : Option Feature)
    (id : Option String) :
    Program.Asks (Request.Explained x.policy.undefinedFails) (fun _ => False) (fun _ _ => True)
      (fun o => ∀ r, o = .ok r → r.Explained x.policy.undefinedFails) (x.run scenario feature id) :=
  (secures_runCase Ledger.empty Ledger.explained_empty trivial).bind fun _ hp => .done hp.2

end Executor
end Rehearsal
