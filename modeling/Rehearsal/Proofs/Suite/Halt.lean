import Rehearsal.Proofs.Scenario.Turns
import Rehearsal.Proofs.Suite.Course

/-! What a request of an abort stops in a suite whose scenarios run in order: nothing is begun after it.
What was begun before keeps its course, with all the hooks that are due after it, and the result says
that the run was aborted. -/

namespace Rehearsal

namespace Moment

/-- A call that requests an abort, or is interrupted, which comes to the same. -/
def asks (m : Moment Request.Answer Bool) : Bool := m.call?.isSome && (m.mark || m.isInterrupt)

theorem call?_of_asks {m : Moment Request.Answer Bool} (h : m.asks = true) :
    m.call?.isSome = true := (Bool.and_eq_true_iff.1 h).1

end Moment

namespace Trace
set_option autoImplicit false
variable {t u v : Trace} {m : Moment Request.Answer Bool} {requested : Bool}

theorem mark_of_heeds (h : t.heeds true = true) (hr : t.resets = false) : ∀ n ∈ t, n.mark = true := by
  induction t with
  | nil => exact List.forall_mem_nil _
  | cons m t ih =>
    rw [heeds, Bool.and_eq_true] at h
    rw [resets, List.any_cons, Bool.or_eq_false_iff] at hr
    have hm : m.mark = true := Moment.mark_of_heeds h.1 hr.1
    exact List.forall_mem_cons.2 ⟨hm, ih (hm ▸ h.2) hr.2⟩

/-- Behind a call that asks for an abort the signal is set, or it is set first of all. -/
theorem requested_of_asks (hm : m.asks = true) (hi : insists (m :: v) = true)
    (hb : v.heeds m.mark = true) (hc : v.complies m.mark = true) :
    v.heeds true = true ∧ v.complies true = true := by
  cases hmark : m.mark with
  | true => exact ⟨hmark ▸ hb, hmark ▸ hc⟩
  | false =>
    rw [insists, Bool.and_eq_true] at hi
    rw [Moment.asks, Bool.and_eq_true, hmark, Bool.false_or] at hm
    obtain ⟨hnext, _⟩ := hi
    rw [hm.2, Bool.not_true, Bool.false_or] at hnext
    obtain ⟨n, hn, habort⟩ := (Option.any_eq_true ..).1 hnext
    obtain ⟨w, rfl⟩ := List.head?_eq_some_iff.1 hn
    rcases n with ⟨r, x, b⟩
    cases r with
    | abort _ =>
      rw [heeds, Bool.and_eq_true] at hb
      rw [complies, Bool.and_eq_true] at hc
      exact ⟨Bool.and_eq_true_iff.2 hb, Bool.and_eq_true_iff.2 ⟨rfl, hc.2⟩⟩
    | _ => cases habort

/-- Where a call asks for an abort, nothing is begun from there on, and the signal stays set. -/
theorem halted_of_asks (ht : (u ++ m :: v).heeds requested = true)
    (hc : (u ++ m :: v).complies requested = true) (hi : (u ++ m :: v).insists = true)
    (hr : v.resets = false) (hm : m.asks = true) :
    v.heeds true = true ∧ ∀ n ∈ v, n.mark = true ∧ n.begins = false := by
  rw [heeds_append, Bool.and_eq_true, heeds, Bool.and_eq_true] at ht
  rw [complies_append, Bool.and_eq_true, complies, Bool.and_eq_true] at hc
  obtain ⟨hb, hcomplies⟩ := requested_of_asks hm (insists_of_append hi) ht.2.2 hc.2.2
  have hbegins := begins_of_complies hcomplies hb hr
  rw [begins, List.any_eq_false] at hbegins
  exact ⟨hb, fun n hn => ⟨mark_of_heeds hb hr n hn, Bool.not_eq_true _ ▸ hbegins n hn⟩⟩

theorem answer_of_heeds {x b : Bool} (hb : v.heeds true = true) (hr : v.resets = false)
    (h : ⟨.aborted, x, b⟩ ∈ v) : x = true := by
  obtain ⟨v₁, v₂, rfl⟩ := List.append_of_mem h
  rw [heeds_append, Bool.and_eq_true] at hb
  rw [resets_append, Bool.or_eq_false_iff] at hr
  rw [signal_of_heeds hb.1 hr.1, heeds, Bool.and_eq_true] at hb
  cases x with
  | true => rfl
  | false => cases hb.2.1

end Trace

namespace Suite
set_option autoImplicit false
variable {s : Suite} {l l' : List FeatureResult} {t : Trace} {features : List Feature}
  {requested : Bool}

theorem insists_invoke {callable : Callable} {scope : Scope} {place : String}
    {o : Except Fault (Status × Option ErrorInfo)} (h : Goes (s.invoke callable scope place) l t o l') :
    t.insists = true := by
  obtain ⟨f, b, u, rfl, hk⟩ := goes_perform_bind_iff.1 h
  change Option Fault at f
  rcases f with _ | f
  · obtain ⟨rfl, _⟩ := goes_pure_iff.1 hk
    rfl
  · cases hf : f.family with
    | pending | ordinary =>
      simp only [hf] at hk
      obtain ⟨rfl, _⟩ := goes_pure_iff.1 hk
      simp [Trace.insists, hf]
    | interrupt =>
      simp only [hf] at hk
      obtain ⟨_, b, v, rfl, hp⟩ := goes_perform_bind_iff.1 hk
      obtain ⟨rfl, _⟩ := goes_pure_iff.1 hp
      simp [Trace.insists, Moment.isAbort, Moment.isInterrupt]
    | exit =>
      simp only [hf] at hk
      obtain ⟨rfl, _⟩ := goes_throw_iff.1 hk
      simp [Trace.insists, hf]

theorem suiteActs_insists (hw : s.workers ≤ 1) :
    SuiteActs s features (fun _ t _ _ => t.insists = true) (fun _ => True) fun _ => True where
  refl _ := rfl
  trans := Trace.insists_append
  aside ht _ := Trace.insists_of_interrupted (Trace.interrupted_of_offstage ht)
  call _ _ _ _ _ _ _ _ h := insists_invoke h
  emit _ _ _ _ _ _ h := (goes_emit h).2.insists
  admitsRecord _ _ := trivial
  admitsScope _ _ := trivial
  stray _ _ _ := rfl
  scenario f _ p _ := by
    intro l t o l' h
    obtain ⟨x, b, u, rfl, hu⟩ := runs_scenarioJob (goes_job_iff.1 h).2
    have hinsists : Trace.insists u = true := by
      rcases hu with ⟨_, hh, _⟩ | ⟨_, hrun⟩
      · exact hh.insists
      · exact Executor.insists_run rfl hrun
    exact hinsists
  pool hpool := absurd hpool (Nat.not_lt.2 hw)
  keep _ _ := rfl

theorem insists_runAll {o : Except Fault SuiteResult} (hw : s.workers ≤ 1)
    (h : Goes (s.runAll features) l t o l') : t.insists = true ∧
      ∃ b, ∃ u : Trace, t = ⟨.resetAbort, (), b⟩ :: u ∧ u.resets = false := by
  obtain ⟨b, u, rfl, hinsists⟩ := (suiteActs_insists hw).runAll (fun _ _ => rfl) h
  have A : SuiteActs s features (fun _ t _ _ => t.filterMap Moment.reset? = []) _ _ :=
    suiteActs_unreset
  obtain ⟨_, _, he, hunreset⟩ := A.runAll (fun _ _ => rfl) h
  cases he
  exact ⟨hinsists, b, u, rfl, Trace.resets_eq_false_iff.2 hunreset⟩

/-- The course of a suite all the way down to the calls of its steps. -/
def FullCourse (s : Suite) (features : List Feature) (requested : Bool) (t : Trace)
    (rs : List (List ScenarioResult)) : Prop :=
  s.Course (fun f p => s.executor.ScenarioCourse (.named p.1 (some f) (some (f.idOf p.2 p.1))))
    features requested t rs

theorem FullCourse.complies {rs : List (List ScenarioResult)}
    (h : s.FullCourse features requested t rs) : t.complies requested = true := by
  refine Bracket.complies h fun ready requested t rs hturns => hturns.complies fun f u rs hf => ?_
  obtain ⟨_, _, _, _, hbracket⟩ := hf
  refine hbracket.complies fun ready requested t rs hturns => hturns.complies fun p u r hp => ?_
  exact hp.complies

/-- A moment that comes after what is neither the last poll nor behind it comes before that poll. -/
theorem mem_of_call {m n : Moment Request.Answer Bool} {u v w z : Trace}
    (h : w ++ n :: z = u ++ m :: v) (hm : m.call?.isSome = true) (hn : n.call? = none)
    (hz : z.calls = []) : n ∈ v := by
  have hcall : ∀ {y : Trace}, m ∈ y → y.calls ≠ [] := by
    intro y hy hnil
    rw [List.filterMap_eq_nil_iff.1 hnil m hy] at hm
    cases hm
  rcases split_append h with ⟨y, _, hy⟩ | ⟨y, _, rfl⟩
  · -- The call would be the poll, or behind it.
    refine absurd ?_ (hcall (y := n :: z) (hy ▸ List.mem_append_right _ List.mem_cons_self))
    have hcalls : Trace.calls (n :: z) = n.call?.toList ++ Trace.calls z := by
      rw [Trace.calls, List.filterMap_cons, hn]
      rfl
    rw [hcalls, hn, hz]
    rfl
  · exact List.mem_append_right _ List.mem_cons_self

/-- In smooth surroundings a run takes its full course. From the first call that requests an abort, or
is interrupted, no scenario and no step is begun and the signal stays set, so that whatever asks for it
from there on is not started; the result says that the run was aborted. -/
theorem halts_of_run {o : Except Fault SuiteResult} (h : (s.run features).Shows t o)
    (ho : s.Orderly features) (hw : s.workers ≤ 1) (ht : t.Smooth requested)
    (hf : t.flushed = true) :
    ∃ r, o = .ok r ∧ s.FullCourse features requested t (r.features.map (·.scenarios)) ∧
      ∀ u m v, t = u ++ m :: v → m.asks = true →
        (∀ n ∈ v, n.mark = true ∧ n.begins = false) ∧ r.aborted = true ∧ r.exitCode = 1 := by
  obtain ⟨r, rfl⟩ := exists_result h ho ht.tame hf (Trace.loopInterrupted_of_taken ht.taken)
  obtain ⟨l', hrun⟩ := shows_run_iff.1 h
  have hQ : s.Stages (fun f p => s.executor.ScenarioCourse (.named p.1 (some f) (some (f.idOf p.2 p.1))))
      features := by
    intro f hfeature p hp u o hu hsmooth
    exact Executor.scenarioCourse_of_run hu (ho.executor hfeature (mem_of_mem_numbered hp) _) rfl hsmooth
  obtain ⟨l, hcourse, hl⟩ := course_runAll hQ ho hw hrun ht
  obtain rfl := hl r rfl
  refine ⟨r, rfl, hcourse, ?_⟩
  rintro u m v hsplit hm
  obtain ⟨hinsists, _, rest, hreset, hunreset⟩ := insists_runAll hw hrun
  obtain ⟨w, z, b, x, b', l, hooks, hpoll, _, _, rfl, hcalls, _⟩ := goes_runAll hrun
  have hcomplies := FullCourse.complies hcourse
  -- Only what comes after the reset can be a call.
  obtain ⟨u', rfl, hrest⟩ : ∃ u', u = ⟨.resetAbort, (), b⟩ :: u' ∧
      w ++ ⟨.aborted, x, b'⟩ :: z = u' ++ m :: v := by
    cases u with
    | nil =>
      obtain ⟨rfl, _⟩ := List.cons.inj (hpoll.symm.trans hsplit)
      cases hm
    | cons n u' =>
      obtain ⟨rfl, he⟩ := List.cons.inj (hpoll.symm.trans hsplit)
      exact ⟨u', rfl, he⟩
  have hmem : ⟨.aborted, x, b'⟩ ∈ v := mem_of_call hrest (Moment.call?_of_asks hm) rfl hcalls
  have hr : Trace.resets v = false := by
    obtain ⟨_, he⟩ := List.cons.inj (hreset.symm.trans hpoll)
    rw [he, hrest, Trace.resets_append, Bool.or_eq_false_iff] at hunreset
    exact (Bool.or_eq_false_iff.1 hunreset.2).2
  rw [hsplit] at hcomplies hinsists
  obtain ⟨hb, hhalted⟩ := Trace.halted_of_asks (hsplit ▸ ht.heeds) hcomplies hinsists hr hm
  obtain rfl : x = true := Trace.answer_of_heeds hb hr hmem
  exact ⟨hhalted, rfl, rfl⟩

/-- A hook before a feature is interrupted. -/
theorem halts_of_run_sample :
    let s := Sample.suite [Sample.hook .beforeFeature 1 "unlock", Sample.hook .afterFeature 2 "lock",
      Sample.hook .afterSuite 3 "close"] 1 false
    let w := Sample.surroundings (fun _ => none)
      fun n => if n = 1 then some (.ofKind "KeyboardInterrupt" "") else none
    let features := [Sample.feature "bookings", Sample.feature "payments"]
    let t := w.showing (s.run features) ⟨0, false⟩
    s.workers = 1 ∧ t.Smooth false ∧ t.flushed = true ∧ ∃ u m v, t = u ++ m :: v ∧ m.asks = true ∧
      (∀ n ∈ v, n.mark = true ∧ n.begins = false) ∧
        ∃ r, w.comesTo (s.run features) ⟨0, false⟩ = some (.ok r) ∧ r.exitCode = 1 := by
  intro s w features t
  have hw : w.Tame := by
    refine Sample.tame fun n f hf => ?_
    split at hf
    · cases hf
      decide
    · cases hf
  have ht : t.Smooth false := w.smooth_showing hw (fun _ => rfl) _ ⟨0, false⟩
  have hf : t.flushed = true := w.flushed_showing _ _
  have hasks : t.any Moment.asks = true := by decide +kernel
  obtain ⟨m, hmem, hm⟩ := List.any_eq_true.1 hasks
  obtain ⟨u, v, he⟩ := List.append_of_mem hmem
  obtain ⟨o, ho, hshows⟩ := w.exists_shows_showing (p := s.run features) (s := ⟨0, false⟩) (by decide +kernel)
  obtain ⟨r, rfl, _, hhalts⟩ := halts_of_run hshows (Sample.suite_orderly (by decide)) (Nat.le_refl 1) ht hf
  obtain ⟨hhalted, _, hcode⟩ := hhalts u m v he hm
  exact ⟨rfl, ht, hf, u, m, v, he, hm, hhalted, r, ho, hcode⟩

/-- An exit that follows the request leaves the run. A hook before a feature requests an abort and
exits, and the hook after the feature is not called. -/
theorem not_closed_of_exit :
    let s := Sample.suite
      [Sample.hook .beforeFeature 1 "unlock", Sample.hook .afterFeature 2 "lock"] 1 false
    let w : Surroundings := { Sample.surroundings (fun _ => none) (fun n =>
      if n = 1 then some (.ofKind "SystemExit" "") else none) with aborts := (· == 1) }
    let features := [Sample.feature "bookings"]
    let t := w.showing (s.run features) ⟨0, false⟩
    s.workers = 1 ∧ s.Orderly features ∧ t.taken = true ∧ t.flushed = true ∧
      t.heeds false = true ∧ t.any Moment.asks = true ∧ t.calls.map (·.callable.id) = [1] ∧
        ∃ f, w.comesTo (s.run features) ⟨0, false⟩ = some (.error f) := by
  intro s w features t
  have herror : (w.comesTo (s.run features) ⟨0, false⟩).any (fun o => (errorIn o).isSome) = true := by
    decide +kernel
  refine ⟨rfl, Sample.suite_orderly (by decide), w.taken_showing (fun _ => rfl) _ _,
    w.flushed_showing _ _, w.heeds_showing _ _, by decide +kernel, by decide +kernel, ?_⟩
  obtain ⟨o, ho, hf⟩ := (Option.any_eq_true ..).1 herror
  cases o with
  | ok r => cases hf
  | error f => exact ⟨f, ho⟩

end Suite
end Rehearsal
