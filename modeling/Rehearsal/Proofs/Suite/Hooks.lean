import Rehearsal.Proofs.Hooks
import Rehearsal.Proofs.Suite.Parts

/-! The hooks of a suite and of its features. Each is called with its scope, and then its result is
handed over. Before what they are for no hook is called after one that failed; after it all of them
are called. Only the sink stops them in between. -/

namespace Rehearsal

namespace Suite
set_option autoImplicit false
variable {s : Suite} {l l' : List FeatureResult} {t : Trace} {scope : Scope} {h : Hook}
  {hs : List Hook}

/-- A hook of a suite or a feature receives its scope. -/
def callOf (scope : Scope) (h : Hook) : Call := ⟨h.callable, [.scope scope]⟩

theorem countsAs_eq_failed_iff (place : String) (f : Option Fault) :
    (s.countsAs place f).1 = .failed ↔ f.isSome = true := by
  cases f with
  | none => exact iff_of_false nofun nofun
  | some f =>
    refine iff_of_true ?_ rfl
    cases hf : f.family <;> simp [countsAs, hf]

/-- What is not refused by the sink cuts no hook short. -/
def Cut (s : Suite) (_ : List FeatureResult) (t : Trace) (e : Option Fault)
    (_ : List FeatureResult) : Prop :=
  t.tame = true → s.executor.CutBy t e

theorem sequential_cut : Sequential s.Cut where
  refl _ _ := rfl
  trans {_ _ _ t u _} h h' ht := by
    rw [Trace.tame_append, Bool.and_eq_true] at ht
    exact (h' ht.2).append (h ht.1)

theorem cut_of_aside {e : Option Fault} (ht : t.offstage = true) (he : t.tame = true → e = none) :
    s.Cut l t e l := by
  intro htame
  rw [he htame]
  exact Trace.taken_of_handed_nil (Trace.handed_of_offstage ht)

theorem hookActs_cut : HookActs s s.Cut (fun _ => True) fun _ => True where
  toSequential := sequential_cut
  aside := cut_of_aside
  call callable scope place _ := by
    intro l t o l' h htame
    obtain ⟨rfl, f, b, u, rfl, hu, _, ho⟩ := goes_invoke h
    rw [ho htame]
    exact Trace.taken_of_handed_nil (Trace.handed_of_call hu)
  emit r _ := by
    intro l t o l' h _
    exact Executor.cutBy_of_hands (goes_emit h).2

/-- What holds of every call with an admitted scope holds of every call there is. -/
theorem hookActs_calls (p : Call → Prop) :
    HookActs s (fun _ t _ _ => ∀ k ∈ t.calls, p k) (fun _ => True)
      fun scope => ∀ callable, p ⟨callable, [.scope scope]⟩ where
  refl _ := List.forall_mem_nil _
  trans ht hu := by
    rw [Trace.calls_append]
    exact List.forall_mem_append.2 ⟨ht, hu⟩
  aside ht _ := by
    rw [Trace.calls_of_offstage ht]
    exact List.forall_mem_nil _
  call callable scope place hscope := by
    intro l t o l' h
    obtain ⟨_, f, b, u, rfl, hu, _⟩ := goes_invoke h
    have hcalls : Trace.calls (⟨.call callable [.scope scope], f, b⟩ :: u) =
        ⟨callable, [.scope scope]⟩ :: Trace.calls u := rfl
    rw [hcalls, Trace.calls_of_offstage hu]
    exact List.forall_mem_singleton.2 (hscope callable)
  emit r _ := by
    intro l t o l' h
    rw [(goes_emit h).2.calls]
    exact List.forall_mem_nil _

/-- Nothing is called or begun. -/
def AtRest (_ : List FeatureResult) (t : Trace) (_ : Option Fault) (_ : List FeatureResult) : Prop :=
  t.Idle

theorem hookActs_atRest : HookActs s AtRest (fun r => r.begins = false) fun _ => False where
  refl _ := ⟨rfl, rfl⟩
  trans ht hu := ht.append hu
  aside ht _ := Trace.idle_of_offstage ht
  call _ _ _ hnone := hnone.elim
  emit r hr := by
    intro l t o l' h
    have hh := (goes_emit h).2
    exact ⟨hh.calls, hh.begins hr⟩

theorem atRest_finish {r : SuiteResult} : Carries AtRest (s.finish r) := by
  have A : HookActs s AtRest _ _ := hookActs_atRest
  refine A.finish rfl fun _ _ _ _ h => ?_
  obtain ⟨_, hhanded, hcalls, _⟩ := goes_flush h
  exact ⟨hcalls, Trace.begins_of_handed_nil hhanded⟩

/-- A hook has a result of its phase. -/
theorem phase_of_runHook {r : HookResult} (hgo : Goes (s.runHook scope h) l t (.ok r) l') :
    r.phase = h.phase := by
  obtain ⟨u, v, p, l₁, rfl, _, hk⟩ := goes_bind_ok_iff.1 hgo
  obtain ⟨w, z, _, l₂, rfl, _, hend⟩ := goes_bind_ok_iff.1 hk
  split at hend
  · obtain ⟨_, rfl, _⟩ := goes_bind_pure_ok_iff.1 hend
    rfl
  · obtain ⟨_, hr, _⟩ := goes_pure_iff.1 hend
    cases hr
    rfl

theorem phase_of_runHookList {phase : HookPhase} {rs : List HookResult}
    (hp : ∀ h ∈ hs, h.phase = phase) (hgo : Goes (s.runHookList scope hs) l t (.ok rs) l') :
    ∀ r ∈ rs, r.phase = phase := by
  induction hs generalizing l t rs with
  | nil =>
    obtain ⟨_, hrs, _⟩ := goes_pure_iff.1 hgo
    cases hrs
    exact List.forall_mem_nil _
  | cons h hs ih =>
    obtain ⟨hh, hrest⟩ := List.forall_mem_cons.1 hp
    rw [runHookList] at hgo
    obtain ⟨u, v, r, l₁, rfl, hfirst, hk⟩ := goes_bind_ok_iff.1 hgo
    have hr : r.phase = phase := (phase_of_runHook hfirst).trans hh
    split at hk
    · obtain ⟨_, hrs, _⟩ := goes_pure_iff.1 hk
      cases hrs
      exact List.forall_mem_singleton.2 hr
    · obtain ⟨rest, rfl, hgo'⟩ := goes_bind_pure_ok_iff.1 hk
      exact List.forall_mem_cons.2 ⟨hr, ih hrest hgo'⟩

theorem goes_runHook {o : Except Fault HookResult} (hgo : Goes (s.runHook scope h) l t o l')
    (ht : t.tame = true) :
    ∃ f, t.invocations = [(callOf scope h, f)] ∧
      (s.hasSink = true → t.records = [.hook (s.hookResult h f)]) ∧
      ∀ r, o = .ok r → r = s.hookResult h f := by
  rcases goes_bind_iff.1 hgo with ⟨u, v, r, l₁, rfl, hcall, hk⟩ | ⟨e, rfl, hcall⟩
  swap
  · obtain ⟨_, _, _, _, _, _, _, ho⟩ := goes_invoke hcall
    cases ho ht
  obtain ⟨_, f, b, w, rfl, hw, hr, _⟩ := goes_invoke hcall
  rcases r with ⟨status, error⟩
  have hresult : (⟨h.phase, h.name, status, none, error, noDuration⟩ : HookResult) =
      s.hookResult h f := by
    have hr := hr _ rfl
    simp only [hookResult, ← hr]
  dsimp only at hk
  rw [hresult] at hk
  refine ⟨f, ?_⟩
  have hcalled : Trace.invocations (⟨.call h.callable [.scope scope], f, b⟩ :: w) =
      [(callOf scope h, f)] := Trace.invocations_of_call hw
  have hsilent : Trace.records (⟨.call h.callable [.scope scope], f, b⟩ :: w) = [] :=
    Trace.records_of_call hw
  rw [Trace.invocations_append, Trace.records_append, hcalled, hsilent, List.nil_append]
  suffices hv : Trace.calls v = [] ∧
      (s.hasSink = true → Trace.records v = [.hook (s.hookResult h f)]) ∧
      ∀ r, o = .ok r → r = s.hookResult h f by
    rw [Trace.invocations_eq_nil hv.1]
    exact ⟨rfl, hv.2⟩
  rcases goes_bind_iff.1 hk with ⟨v, z, _, l₂, rfl, hemit, hend⟩ | ⟨e, rfl, hemit⟩
  swap
  · have hv := (goes_emit hemit).2
    exact ⟨hv.calls, fun hsink => hv.records hsink, fun _ he => nomatch he⟩
  have hv := (goes_emit hemit).2
  have hz : Trace.offstage z = true ∧ ∀ r, o = .ok r → r = s.hookResult h f := by
    split at hend
    · obtain ⟨r, rfl, hlog⟩ := goes_bind_pure_iff.1 hend
      refine ⟨(goes_log hlog).2.1, fun r' hr' => ?_⟩
      cases r with
      | ok _ => exact (Except.ok.inj hr').symm
      | error _ => cases hr'
    · obtain ⟨rfl, rfl, rfl⟩ := goes_pure_iff.1 hend
      exact ⟨rfl, fun r hr => (Except.ok.inj hr).symm⟩
  refine ⟨?_, fun hsink => ?_, hz.2⟩
  · rw [Trace.calls_append, hv.calls, Trace.calls_of_offstage hz.1]
    rfl
  · rw [Trace.records_append, hv.records hsink, Trace.records_of_offstage hz.1]
    rfl

/-- Hooks are called as far as the list goes. After what they are for, only the sink keeps some of them
from being called. -/
theorem goes_runHookList {o : Except Fault (List HookResult)}
    (hgo : Goes (s.runHookList scope hs) l t o l') (ht : t.tame = true) :
    ∃ n, t.calls = (hs.take n).map (callOf scope) ∧
      (s.hasSink = true → ∃ rs : List HookResult, t.records = rs.map .hook ∧
        rs.map (·.phase) = (hs.take n).map (·.phase)) ∧
      ((∀ h ∈ hs, h.phase.isBefore = false) → errorIn o = none → hs.length ≤ n) := by
  induction hs generalizing l t o with
  | nil =>
    obtain ⟨rfl, rfl, rfl⟩ := goes_pure_iff.1 hgo
    exact ⟨0, rfl, fun _ => ⟨[], rfl, rfl⟩, fun _ _ => Nat.le_refl 0⟩
  | cons h hs ih =>
    rw [runHookList] at hgo
    rcases goes_bind_iff.1 hgo with ⟨u, v, r, l₁, rfl, hfirst, hk⟩ | ⟨e, rfl, hfirst⟩
    · rw [Trace.tame_append, Bool.and_eq_true] at ht
      obtain ⟨f, hcall, hrecord, hr⟩ := goes_runHook hfirst ht.1
      have hcalls : Trace.calls u = [callOf scope h] := by rw [← Trace.map_invocations, hcall]; rfl
      split at hk
      · rename_i hhalt
        obtain ⟨rfl, rfl, rfl⟩ := goes_pure_iff.1 hk
        obtain rfl := hr r rfl
        rw [List.append_nil]
        refine ⟨1, hcalls, fun hsink => ⟨[s.hookResult h f], hrecord hsink, rfl⟩, fun hafter _ => ?_⟩
        have hbefore : h.phase.isBefore = true := (Bool.and_eq_true_iff.1 hhalt).2
        exact nomatch hbefore.symm.trans (hafter h List.mem_cons_self)
      · obtain ⟨o', rfl, hrest⟩ := goes_bind_pure_iff.1 hk
        obtain ⟨n, hns, hrecs, hn⟩ := ih hrest ht.2
        refine ⟨n + 1, ?_, fun hsink => ?_, fun hafter hnone => ?_⟩
        · rw [Trace.calls_append, hcalls, hns]
          rfl
        · obtain ⟨rs, hrs, hphases⟩ := hrecs hsink
          refine ⟨s.hookResult h f :: rs, ?_, ?_⟩
          · rw [Trace.records_append, hrecord hsink, hrs]
            rfl
          · rw [List.map_cons, hphases]
            rfl
        · rw [errorIn_map] at hnone
          exact Nat.succ_le_succ (hn (fun h hm => hafter h (List.mem_cons_of_mem _ hm)) hnone)
    · obtain ⟨f, hcall, hrecord, _⟩ := goes_runHook hfirst ht
      refine ⟨1, ?_, fun hsink => ⟨[s.hookResult h f], hrecord hsink, rfl⟩, nofun⟩
      rw [← Trace.map_invocations, hcall]
      rfl

theorem upToFailure_runHookList {rs : List HookResult} (hb : ∀ h ∈ hs, h.phase.isBefore = true)
    (hgo : Goes (s.runHookList scope hs) l t (.ok rs) l') (ht : t.tame = true) :
    UpToFailure (fun k h => k = callOf scope h) Option.isSome hs t.invocations (allWell rs) := by
  induction hs generalizing l t rs with
  | nil =>
    obtain ⟨rfl, hrs, rfl⟩ := goes_pure_iff.1 hgo
    cases hrs
    exact .nil
  | cons h hs ih =>
    obtain ⟨hfirst, hrest⟩ := List.forall_mem_cons.1 hb
    rw [runHookList] at hgo
    obtain ⟨u, v, r, l₁, rfl, hh, hk⟩ := goes_bind_ok_iff.1 hgo
    rw [Trace.tame_append, Bool.and_eq_true] at ht
    obtain ⟨f, hcall, _, hr⟩ := goes_runHook hh ht.1
    obtain rfl := hr r rfl
    have hfailed := countsAs_eq_failed_iff (s := s) h.name f
    have hstatus : (s.hookResult h f).status = (s.countsAs h.name f).1 := rfl
    rw [hfirst, Bool.and_true, hstatus] at hk
    rw [Trace.invocations_append, hcall]
    split at hk
    · rename_i hf
      obtain ⟨rfl, hrs, _⟩ := goes_pure_iff.1 hk
      cases hrs
      have hwell : allWell [s.hookResult h f] = false := by
        simpa [allWell, hstatus] using hf
      rw [hwell]
      exact .halt rfl (hfailed.1 (eq_of_beq hf))
    · rename_i hf
      obtain ⟨rest, rfl, hgo'⟩ := goes_bind_pure_ok_iff.1 hk
      have hnot : (s.countsAs h.name f).1 ≠ .failed := fun he => hf (beq_iff_eq.2 he)
      have hwell : allWell (s.hookResult h f :: rest) = allWell rest := by
        simp [allWell, hstatus, hnot]
      rw [hwell]
      exact .next rfl (Bool.not_eq_true _ ▸ fun he => hnot (hfailed.2 he)) (ih hrest hgo' ht.2)

theorem isBefore_of_mem_lookup {phase : HookPhase} {tags : Option (List String)}
    (hl : s.registry.lookup phase tags = .ok hs) : ∀ h ∈ hs, h.phase.isBefore = phase.isBefore :=
  fun _ hm => by rw [Registry.phase_of_mem_lookup hl hm]

theorem forall₂_runHookList {rs : List HookResult} (ha : ∀ h ∈ hs, h.phase.isBefore = false)
    (hgo : Goes (s.runHookList scope hs) l t (.ok rs) l') (ht : t.tame = true) :
    List.Forall₂ (fun k h => k = callOf scope h) t.calls hs := by
  obtain ⟨n, hcalls, _, hn⟩ := goes_runHookList hgo ht
  rw [hcalls, List.take_of_length_le (hn ha rfl), List.forall₂_map_left_iff]
  exact List.forall₂_same.2 fun _ _ => rfl

theorem goes_runHooks_of_lookup {phase : HookPhase} {o : Except Fault (List HookResult)}
    (hl : s.registry.lookup phase scope.tags = .ok hs) (hgo : Goes (s.runHooks phase scope) l t o l') :
    Goes (s.runHookList scope hs) l t o l' := by
  rw [runHooks, hl] at hgo
  exact hgo

theorem goes_suiteHooks {phase : HookPhase} {features : List Feature} {shown : Option SuiteResult}
    {o : Except Fault (List HookResult)}
    (hgo : Goes (s.runHooks phase (.suite features shown)) l t o l') :
    Goes (s.runHookList (.suite features shown) (s.registry.hooksOf phase)) l t o l' :=
  goes_runHooks_of_lookup Registry.lookup_untagged hgo

theorem phase_of_mem_hooksOf {r : Registry} {phase : HookPhase} :
    ∀ h ∈ r.hooksOf phase, h.phase = phase :=
  fun _ hm => eq_of_beq (List.mem_filter.1 hm).2

/-- How a run is put together once it was announced. Unless the hooks before the suite are cut short, the
loop over the features is run and recovered from, and the hooks after the suite come whatever the loop
ended in. -/
def Conducts (s : Suite) (features : List Feature) (t : Trace) (o : Except Fault SuiteResult)
    (l' : List FeatureResult) : Prop :=
  ∃ (t₁ rest : Trace) (o₁ : Except Fault (List HookResult)), t = t₁ ++ rest ∧
    Goes (s.runHookList (.suite features none) (s.registry.hooksOf .beforeSuite)) [] t₁ o₁ [] ∧
    match o₁ with
    | .error e => rest = [] ∧ o = .error e
    | .ok hooks => ∃ (t₂ t₃ t₄ t₅ : Trace) (x b' : Bool) (o₂ o₃ : Except Fault Unit)
        (l₂ l₃ : List FeatureResult) (o₄ : Except Fault (List HookResult)),
        rest = t₂ ++ (t₃ ++ ⟨.aborted, x, b'⟩ :: (t₄ ++ t₅)) ∧
        Goes (s.runFeatures (allWell hooks) features) [] t₂ o₂ l₂ ∧
        Goes (s.recover features o₂) l₂ t₃ (.ok o₃) l₃ ∧
        Goes (s.runHookList (.suite features (some (s.made l₃ hooks x)))
          (s.registry.hooksOf .afterSuite)) l₃ t₄ o₄ l₃ ∧
        match o₄ with
        | .error e => t₅ = [] ∧ o = .error e
        | .ok after =>
          (∃ e, o₃ = .error e ∧ t₅ = [] ∧ o = .error e) ∨
            o₃ = .ok () ∧ ∃ (y b'' : Bool) (t₆ : Trace), t₅ = ⟨.aborted, y, b''⟩ :: t₆ ∧
              Goes (s.finish (s.made l₃ (hooks ++ after) y)) l₃ t₆ o l'

theorem goes_runAll_announced {features : List Feature} {o : Except Fault SuiteResult}
    (h : Goes (s.runAll features) [] t o l') :
    ∃ (b : Bool) (t₀ u : Trace) (o₀ : Except Fault Unit), t = ⟨.resetAbort, (), b⟩ :: (t₀ ++ u) ∧
      Goes (s.greet features) [] t₀ o₀ [] ∧
      match o₀ with
      | .error e => u = [] ∧ o = .error e
      | .ok _ => s.Conducts features u o l' := by
  have hstill : ∀ {phase shown l t o l'}, Goes (s.runHooks phase (.suite features shown)) l t o l' →
      l' = l := fun h => (@loopActs_still s features).suiteHooks trivial
        (fun _ _ => trivial) h
  rw [runAll_eq] at h
  obtain ⟨⟨⟩, b, u, rfl, h₀⟩ := goes_perform_bind_iff.1 h
  rcases goes_bind_iff.1 h₀ with ⟨t₀, u, _, l₀, rfl, hlog, h₁⟩ | ⟨e, rfl, hlog⟩
  swap
  · obtain ⟨rfl, _⟩ := goes_log hlog
    exact ⟨b, u, [], .error e, by rw [List.append_nil], hlog, rfl, rfl⟩
  obtain ⟨rfl, _⟩ := goes_log hlog
  refine ⟨b, t₀, u, .ok (), rfl, hlog, ?_⟩
  rcases goes_bind_iff.1 h₁ with ⟨t₁, u, hooks, l₁, rfl, hbefore, h₂⟩ | ⟨e, rfl, hbefore⟩
  swap
  · obtain rfl := hstill hbefore
    exact ⟨_, [], .error e, by rw [List.append_nil], goes_suiteHooks hbefore, rfl, rfl⟩
  obtain rfl := hstill hbefore
  refine ⟨t₁, u, .ok hooks, rfl, goes_suiteHooks hbefore, ?_⟩
  obtain ⟨t₂, u, o₂, l₂, rfl, hloop, h₃⟩ := goes_observe_bind_iff.1 h₂
  rcases goes_bind_iff.1 h₃ with ⟨t₃, u, o₃, l₃, rfl, hrecover, h₄⟩ | ⟨e, rfl, hrecover⟩
  swap
  · obtain ⟨_, he, _⟩ := goes_recover hrecover
    cases he
  rcases goes_bind_iff.1 h₄ with ⟨v, u, shown, l₄, rfl, hshown, h₅⟩ | ⟨e, rfl, hshown⟩
  swap
  · obtain ⟨_, _, _, _, he⟩ := goes_result_iff.1 hshown
    cases he
  obtain ⟨rfl, x, b', rfl, hmade⟩ := goes_result_iff.1 hshown
  cases hmade
  rcases goes_bind_iff.1 h₅ with ⟨t₄, u, after, l₅, rfl, hafter, h₆⟩ | ⟨e, rfl, hafter⟩
  swap
  · obtain rfl := hstill hafter
    exact ⟨t₂, t₃, _, [], x, b', o₂, o₃, l₂, l', .error e, by simp, hloop, hrecover,
      goes_suiteHooks hafter, rfl, rfl⟩
  obtain rfl := hstill hafter
  refine ⟨t₂, t₃, t₄, u, x, b', o₂, o₃, l₂, l₅, .ok after, by simp, hloop, hrecover,
    goes_suiteHooks hafter, ?_⟩
  rcases goes_settle_bind_iff.1 h₆ with ⟨_, rfl, h₇⟩ | ⟨e, rfl, rfl, rfl, rfl⟩
  swap
  · exact .inl ⟨e, rfl, rfl, rfl⟩
  rcases goes_bind_iff.1 h₇ with ⟨v, t₆, result, l₆, rfl, hresult, h₈⟩ | ⟨e, rfl, hresult⟩
  swap
  · obtain ⟨_, _, _, _, he⟩ := goes_result_iff.1 hresult
    cases he
  obtain ⟨rfl, y, b'', rfl, hmade⟩ := goes_result_iff.1 hresult
  cases hmade
  exact .inr ⟨rfl, y, b'', t₆, rfl, h₈⟩

/-- A run that the log does not cut short at once. -/
theorem goes_runAll_parts {features : List Feature} {o : Except Fault SuiteResult}
    (h : Goes (s.runAll features) [] t o l') (ht : t.logged = true) :
    ∃ (b : Bool) (t₀ u : Trace), t = ⟨.resetAbort, (), b⟩ :: (t₀ ++ u) ∧ t₀.offstage = true ∧
      s.Conducts features u o l' := by
  obtain ⟨b, t₀, u, o₀, rfl, hgreet, hrest⟩ := goes_runAll_announced h
  cases o₀ with
  | error e =>
    rw [hrest.1, List.append_nil] at ht
    cases ok_of_log hgreet ht
  | ok _ => exact ⟨b, t₀, u, rfl, (goes_log hgreet).2.1, hrest⟩

end Suite
end Rehearsal
