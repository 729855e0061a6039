import Rehearsal.Proofs.Scenario.Silence
import Rehearsal.Proofs.Surroundings

/-! The cause that a scenario reports. It is the first error that a record of the run brings, in the
order in which hooks and steps have their results. A hook that is pending brings one as well as a hook
that failed does, so that the cause need not be the error of a failure. -/

namespace Rehearsal
set_option autoImplicit false

namespace Record

def failure : Record → Option ErrorInfo
  | hook r => if r.status == .failed then r.error else none
  | step r => if r.status == .failed then r.error else none
  | _ => none

/-- No hook that did not fail comes first with an error, unless the first failure after it has the
same. -/
def CauseIsFailure (rs : List Record) : Prop :=
  ∀ before r after e, rs = before ++ hook r :: after → r.status ≠ .failed → r.error = some e →
    (∀ p ∈ before, p.noted = none) → after.findSome? failure = some e

variable {r : Record} {rs : List Record} {e : ErrorInfo}

theorem failure_eq_none_of_noted (h : r.noted = none) : r.failure = none := by
  cases r with
  | hook r =>
    have h : r.error = none := h
    rw [failure, h]
    exact ite_self none
  | step r => exact h
  | _ => rfl

theorem failure_or_hook_of_noted (h : r.noted = some e) :
    r.failure = some e ∨
      r.failure = none ∧ ∃ s, r = hook s ∧ s.status ≠ .failed ∧ s.error = some e := by
  cases r with
  | hook s =>
    by_cases hs : s.status = .failed
    · rw [failure, hs]
      exact .inl h
    · rw [failure, if_neg (by simpa using hs)]
      exact .inr ⟨rfl, s, rfl, hs, h⟩
  | step s => exact .inl h
  | stage _ => cases h
  | scenario _ => cases h
  | _ => cases h

theorem causeIsFailure_cons_of_noted_none (h : r.noted = none) :
    CauseIsFailure (r :: rs) ↔ CauseIsFailure rs := by
  constructor
  · rintro hc before s after e rfl hs he hb
    exact hc (r :: before) s after e rfl hs he (List.forall_mem_cons.2 ⟨h, hb⟩)
  · intro hc before s after e hrs hs he hb
    cases before with
    | nil =>
      obtain ⟨rfl, _⟩ := List.cons.inj hrs
      exact nomatch h.symm.trans he
    | cons p before =>
      obtain ⟨rfl, rfl⟩ := List.cons.inj hrs
      exact hc before s after e rfl hs he fun q hq => hb q (List.mem_cons_of_mem _ hq)

theorem causeIsFailure_cons_of_noted (h : r.noted = some e) :
    CauseIsFailure (r :: rs) ↔ (r.failure = none → rs.findSome? failure = some e) := by
  constructor
  · intro hc hf
    rcases failure_or_hook_of_noted h with hf' | ⟨_, s, rfl, hs, he⟩
    · exact nomatch hf.symm.trans hf'
    · exact hc [] s rs e rfl hs he fun _ hp => absurd hp List.not_mem_nil
  · intro hc before s after e' hrs hs he hb
    cases before with
    | nil =>
      obtain ⟨rfl, rfl⟩ := List.cons.inj hrs
      obtain rfl := Option.some.inj (he.symm.trans h)
      refine hc ?_
      rw [failure, if_neg (by simpa using hs)]
    | cons p before =>
      obtain ⟨rfl, _⟩ := List.cons.inj hrs
      exact nomatch (hb r List.mem_cons_self).symm.trans h

/-- The first error is the error of the first failure exactly when no other hook is in the way. -/
theorem findSome?_noted_eq_iff : rs.findSome? noted = rs.findSome? failure ↔ CauseIsFailure rs := by
  induction rs with
  | nil =>
    refine iff_of_true rfl ?_
    intro before r after e h
    exact nomatch List.append_eq_nil_iff.1 h.symm
  | cons r rs ih =>
    cases h : r.noted with
    | none =>
      rw [causeIsFailure_cons_of_noted_none h, List.findSome?_cons_of_isNone (by rw [h]; rfl),
        List.findSome?_cons_of_isNone (by rw [failure_eq_none_of_noted h]; rfl)]
      exact ih
    | some e =>
      rw [causeIsFailure_cons_of_noted h, List.findSome?_cons, List.findSome?_cons, h]
      rcases failure_or_hook_of_noted h with hf | ⟨hf, _⟩
      · simp [hf]
      · simp [hf, eq_comm]

end Record

namespace Executor
variable {x : Executor} {c : Case} {t : Trace}

theorem noted_setUp {l l' : Ledger} {o : Except Fault (Except Broken DispatchTable)}
    (h : Ends (x.setUp c) l t o l') : t.noted = none := by
  obtain ⟨_, u, v, rfl, hv, hu, _⟩ := ends_setUp h
  rw [Trace.noted, Trace.records_append, Trace.records_of_offstage hv, List.append_nil]
  generalize errorIn o = f at hu
  cases hu with
  | silent _ => rfl
  | loud e m _ => rfl

/-- The cause that a prepared scenario reports, by its trace in full: it is the first error that is
brought, and the error of the first failure just when no hook that did not fail brought one before. -/
theorem error_eq_first_failure_iff {scenario : Scenario} {feature : Option Feature}
    {id : Option String} {d : DispatchTable} {r : ScenarioResult}
    (h : (x.run scenario feature id).Runs t (.ok r))
    (hp : x.Prepared (.named scenario feature id) t d) :
    ∃ full : Trace, x.Voiced t full ∧ (x.loud.run scenario feature id).Runs full (.ok r) ∧
      r.hooks = full.hooks ∧ r.steps = full.steps ∧ r.error = full.noted ∧
      (r.error = full.records.findSome? Record.failure ↔ Record.CauseIsFailure full.records) := by
  obtain ⟨full, hv, hrun, hprep⟩ := exists_voiced h hp
  obtain ⟨l', hc⟩ := runs_run_iff.1 hrun
  obtain ⟨hd, u, v, rfl, hs, hk⟩ := hprep.ends hc
  obtain ⟨_, _, hhooks, hsteps⟩ := quiet_setUp hs
  obtain ⟨hit, stage, hr⟩ := entered_runComposed hd rfl hk
  have herror : r.error = Trace.noted (u ++ v) := by
    have hu : (Trace.records u).findSome? Record.noted = none := noted_setUp hs
    rw [Trace.noted, Trace.records_append, List.findSome?_append, hu, hr]
    rfl
  refine ⟨u ++ v, hv, hrun, ?_, ?_, herror, ?_⟩
  · rw [Trace.hooks_append, hhooks, hr]
    rfl
  · rw [Trace.steps_append, hsteps, hr]
    rfl
  · rw [herror]
    exact Record.findSome?_noted_eq_iff

/-- A hook before the scenario is pending, and its error is reported though nothing failed. -/
theorem error_eq_first_failure_iff_sample :
    let x := Sample.executor [Sample.hook .beforeScenario 1 "reserve"]
    let w := Sample.surroundings (fun _ => none)
      fun n => if n = 1 then some (.ofKind "PendingStep" "not yet") else none
    let t := w.traceOf (x.run Sample.scenario none none)
    ∃ r, w.resultOf (x.run Sample.scenario none none) = .ok r ∧ r.error = t.noted ∧
      r.error ≠ none ∧ t.records.findSome? Record.failure = none := by
  intro x w t
  have hc : compose x.root = _ := compose_leaf ..
  have hok : (w.resultOf (x.run Sample.scenario none none)).toBool = true := by
    unfold Surroundings.resultOf Executor.run Executor.runCase Executor.setUp
    rw [hc]
    decide +kernel
  obtain ⟨r, hr⟩ : ∃ r, w.resultOf (x.run Sample.scenario none none) = .ok r := by
    cases hr : w.resultOf (x.run Sample.scenario none none) with
    | ok r => exact ⟨r, rfl⟩
    | error f => exact nomatch hr ▸ hok
  have hrun : (x.run Sample.scenario none none).Runs t (.ok r) := hr ▸ w.runs_traceOf _
  obtain ⟨full, hv, _, _, _, herror, _⟩ := error_eq_first_failure_iff hrun (Sample.prepared rfl)
  obtain rfl := hv.same rfl
  have hnoted : t.noted.isSome = true ∧ (t.records.findSome? Record.failure).isNone = true := by
    unfold t Surroundings.traceOf Executor.run Executor.runCase Executor.setUp
    rw [hc]
    decide +kernel
  refine ⟨r, hr, herror, ?_, Option.isNone_iff_eq_none.1 hnoted.2⟩
  rw [herror]
  exact Option.isSome_iff_ne_none.1 hnoted.1

end Executor
end Rehearsal
