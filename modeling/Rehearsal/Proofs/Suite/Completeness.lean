import Rehearsal.Proofs.Suite.Listing
import Rehearsal.Proofs.Suite.Surroundings

/-! When the run of a suite comes to a result, which then lists everything. The sink may refuse one
record of the loop over the features by an interrupt: the loop is over then, and the features that are
left are skipped. Who interrupts the run twice, or outside the loop, may leave it without a result. -/

namespace Rehearsal
set_option autoImplicit false

namespace Record

/-- Does a record tell of the suite itself, outside the loop over its features? -/
def ofSuite : Record → Bool
  | hook r => r.phase == .beforeSuite || r.phase == .afterSuite
  | suite _ => true
  | _ => false

end Record

/-- The sink refuses at most one record, in the loop over the features, by an interrupt. -/
structure Trace.LoopInterrupted (t : Trace) : Prop where
  once : t.handed.countP (·.2.isSome) ≤ 1
  inLoop : ∀ r f, (r, some f) ∈ t.handed → f.family = .interrupt ∧ r.ofSuite = false

namespace Trace
variable {t u : Trace}

theorem loopInterrupted_of_taken (h : t.taken = true) : t.LoopInterrupted := by
  rw [taken, List.all_eq_true] at h
  constructor
  · rw [List.countP_eq_zero.2]
    · exact Nat.zero_le 1
    · intro p hp hsome
      have hnone := h p hp
      cases hf : p.2 with
      | none => rw [hf] at hsome; cases hsome
      | some f => rw [hf] at hnone; cases hnone
  · intro r f hr
    cases h _ hr

theorem loopInterrupted_of_all (h : t.handed.countP (·.2.isSome) ≤ 1)
    (hall : t.handed.all
      (fun p => p.2.all fun f => f.family == .interrupt && !p.1.ofSuite) = true) :
    t.LoopInterrupted where
  once := h
  inLoop r f hr := by simpa using List.all_eq_true.1 hall _ hr

theorem LoopInterrupted.of_sublist (h : t.LoopInterrupted) (hu : u.Sublist t) :
    u.LoopInterrupted where
  once := Nat.le_trans (List.Sublist.countP_le (handed_sublist hu)) h.once
  inLoop r f hr := h.inLoop r f ((handed_sublist hu).subset hr)

/-- Of two parts only one has a record that is refused. -/
theorem LoopInterrupted.exclusive (h : (t ++ u).LoopInterrupted) {r r' : Record} {f g : Fault}
    (hr : (r, some f) ∈ t.handed) (hr' : (r', some g) ∈ u.handed) : False :=
  exclusive_of_once h.once hr hr'

end Trace

namespace Suite
variable {s : Suite} {l l' : List FeatureResult} {t : Trace} {features : List Feature}

/-- Nothing cuts an action short while the sink interrupts the loop over the features at most. -/
def Spared (_ : List FeatureResult) (t : Trace) (e : Option Fault) (_ : List FeatureResult) : Prop :=
  t.tame = true → t.flushed = true → t.LoopInterrupted → e = none

theorem sequential_spared : Sequential Spared where
  refl _ _ _ _ := rfl
  trans {_ _ _ t u _} _ hu ht hf hi := by
    rw [Trace.tame_append, Bool.and_eq_true] at ht
    rw [Trace.flushed_append, Bool.and_eq_true] at hf
    exact hu ht.2 hf.2 (hi.of_sublist (List.sublist_append_right t u))

theorem hookActs_spared : HookActs s Spared (fun r => r.ofSuite = true) fun _ => True where
  toSequential := sequential_spared
  aside _ he ht _ _ := he ht
  call callable scope place _ := by
    intro l t o l' h ht _ _
    obtain ⟨_, _, _, _, _, _, _, hok⟩ := goes_invoke h
    rw [hok ht, errorIn_ok]
  emit r hr := by
    intro l t o l' h _ _ hi
    have hh := (goes_emit h).2
    generalize errorIn o = e at hh ⊢
    cases e with
    | none => rfl
    | some f => cases hr.symm.trans (hi.inLoop r f (mem_handed_of_hands hh)).2

theorem spared_result {hooks : List HookResult} : Carries Spared (s.result hooks) := by
  intro l t o l' h _ _ _
  obtain ⟨_, _, _, _, rfl⟩ := goes_result_iff.1 h
  rfl

theorem spared_finish {r : SuiteResult} : Carries Spared (s.finish r) := by
  have A : HookActs s Spared _ _ := hookActs_spared
  refine A.finish rfl fun _ _ _ _ h _ hf _ => ?_
  rw [(goes_flush h).2.2.2 hf, errorIn_ok]

/-- An interrupt of the loop is recovered from, as there is no second one. -/
theorem recovers {ready : Bool} {o : Except Fault Unit} {r : Except Fault (Except Fault Unit)}
    {l₁ l₂ : List FeatureResult} {u : Trace} (ho : s.Orderly features)
    (hloop : Goes (s.runFeatures ready features) l u o l₁)
    (hrecover : Goes (s.recover features o) l₁ t r l₂) (ht : (u ++ t).tame = true)
    (hi : (u ++ t).LoopInterrupted) : r = .ok (.ok ()) := by
  rw [Trace.tame_append, Bool.and_eq_true] at ht
  have A : SuiteActs s features (s.Raised features) _ _ := suiteActs_raised
  have hraised := A.runFeatures (fun _ => id) hloop ho ht.1
  obtain ⟨r', rfl, ⟨_, rfl, _, hn⟩ | ⟨f, rfl, _, hsalvage⟩⟩ := goes_recover hrecover
  · -- A fault that is not recovered from is no interrupt, which is the only one there may be.
    cases r' with
    | ok _ => rfl
    | error f =>
      obtain ⟨r, hr⟩ := hraised f rfl
      have hr : (r, some f) ∈ (u ++ t).handed := by
        rw [Trace.handed_append]
        exact List.mem_append_left _ hr
      exact absurd (hi.inLoop r f hr).1 (hn f rfl)
  · -- What cuts the recovery short would be a second refusal, after the one that cut the loop short.
    cases r' with
    | ok _ => rfl
    | error g =>
      obtain ⟨r, hr⟩ := hraised f rfl
      obtain ⟨r', hr'⟩ := A.salvage hsalvage ho ht.2 g rfl
      exact (hi.exclusive hr hr').elim

/-- What follows the loop is not cut short where the interrupt of the loop was recovered from. -/
theorem spared_close {hooks : List HookResult} : Carries Spared (s.close features hooks (.ok ())) := by
  have A : HookActs s Spared _ _ := hookActs_spared
  have hseq := A.toSequential
  refine carries_bind hseq spared_result fun soFar => ?_
  refine carries_bind hseq (A.suiteHooks trivial fun r hr => by simp [Record.ofSuite, hr]) fun after => ?_
  refine carries_settle_bind nofun fun _ _ => ?_
  exact carries_bind hseq spared_result fun result => spared_finish

theorem spared_runAll (ho : s.Orderly features) : Carries Spared (s.runAll features) := by
  have A : HookActs s Spared _ _ := hookActs_spared
  have hseq := A.toSequential
  rw [runAll_eq]
  refine carries_bind hseq ?_ fun _ => carries_bind hseq A.log fun _ => ?_
  · intro l t o l' h _ _ _
    obtain ⟨_, _, _, rfl, _⟩ := goes_perform_iff.1 h
    rfl
  refine carries_bind hseq (A.suiteHooks trivial fun r hr => by simp [Record.ofSuite, hr]) fun hooks => ?_
  intro l t o l' h ht hf hi
  obtain ⟨t₁, u, o₁, l₁, rfl, hloop, h₁⟩ := goes_observe_bind_iff.1 h
  rcases goes_bind_iff.1 h₁ with ⟨t₂, v, outcome, l₂, rfl, hrecover, h₂⟩ | ⟨e, rfl, hrecover⟩
  · have hmiddle : (t₁ ++ t₂).Sublist (t₁ ++ (t₂ ++ v)) := by
      rw [← List.append_assoc]
      exact List.sublist_append_left _ v
    have hrest : v.Sublist (t₁ ++ (t₂ ++ v)) :=
      (List.sublist_append_right t₂ v).trans (List.sublist_append_right t₁ _)
    have hok := recovers ho hloop hrecover (Trace.tame_of_sublist hmiddle ht) (hi.of_sublist hmiddle)
    cases hok
    exact spared_close h₂ (Trace.tame_of_sublist hrest ht) (Trace.flushed_of_sublist hrest hf)
      (hi.of_sublist hrest)
  · cases recovers ho hloop hrecover ht hi

/-- A run has a result, unless the sink cuts it short. -/
theorem exists_result {o : Except Fault SuiteResult} (h : (s.run features).Shows t o)
    (ho : s.Orderly features) (ht : t.tame = true) (hf : t.flushed = true)
    (hi : t.LoopInterrupted) : ∃ r, o = .ok r := by
  obtain ⟨l', hrun⟩ := shows_run_iff.1 h
  have hnone := spared_runAll ho hrun ht hf hi
  cases o with
  | ok r => exact ⟨r, rfl⟩
  | error f => cases hnone

/-- Every feature is listed in its place with its scenarios, and each of these with its steps, in every
run that the sink does not cut short. A sink that interrupts jobs of a pool is left out. -/
theorem outline_of_run {o : Except Fault SuiteResult} (h : (s.run features).Shows t o)
    (ho : s.Orderly features) (ht : t.tame = true) (hf : t.flushed = true)
    (hk : t.taken = true ∨ s.workers ≤ 1 ∧ t.LoopInterrupted) :
    ∃ r, o = .ok r ∧ r.features.map FeatureResult.outline = features.map Feature.outline := by
  have hi : t.LoopInterrupted := hk.elim Trace.loopInterrupted_of_taken (·.2)
  obtain ⟨r, rfl⟩ := exists_result h ho ht hf hi
  obtain ⟨l', hrun⟩ := shows_run_iff.1 h
  obtain ⟨w, v, b, x, b', l, hooks, rfl, _, hreports, rfl, _⟩ := goes_runAll hrun
  exact ⟨_, rfl, outline_of_reports hreports⟩

theorem outline_of_run_sample :
    let s := Sample.suite [Sample.hook .beforeFeature 1 "open"] 1 false
    let w := Sample.surroundings
      (fun n => if n = 0 then some (.ofKind "KeyboardInterrupt" "") else none) fun _ => none
    let features := [Sample.feature "bookings", Sample.feature "payments"]
    let t := w.showing (s.run features) ⟨0, false⟩
    t.taken = false ∧ t.LoopInterrupted ∧
      ∃ r, w.comesTo (s.run features) ⟨0, false⟩ = some (.ok r) ∧
        r.features.map FeatureResult.outline = features.map Feature.outline := by
  intro s w features t
  have hi : t.LoopInterrupted :=
    Trace.loopInterrupted_of_all (by decide +kernel) (by decide +kernel)
  have hw : w.Tame := Sample.tame nofun
  obtain ⟨o, ho, hshows⟩ := w.exists_shows_showing (p := s.run features) (s := ⟨0, false⟩) (by decide +kernel)
  obtain ⟨r, rfl, houtline⟩ := outline_of_run hshows (Sample.suite_orderly (by decide))
    (Surroundings.tame_showing hw _ _) (w.flushed_showing _ _) (.inr ⟨Nat.le_refl 1, hi⟩)
  exact ⟨by decide +kernel, hi, r, ho, houtline⟩

end Suite
end Rehearsal
