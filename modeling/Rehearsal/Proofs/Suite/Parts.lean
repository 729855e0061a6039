import Rehearsal.Proofs.Scenario.Summary
import Rehearsal.Proofs.Suite.Act

/-! The parts of the run of a suite, and what holds in each of them: results are kept in the loop over
the features only, no part takes the request of an abort back, and what leaves a part was raised by the
sink. -/

namespace Rehearsal.Suite
set_option autoImplicit false

variable {s : Suite} {l l' : List FeatureResult} {t : Trace} {features : List Feature} {f : Feature}
  {c : Scenario} {index : Nat}

/-- A scenario of a feature is run, or its result says that it was not started. -/
theorem runs_scenarioJob {o : Except Fault ScenarioResult}
    (h : (s.scenarioJob f c index).Runs t o) :
    ∃ x b, ∃ u : Trace, t = ⟨.aborted, x, b⟩ :: u ∧
      (x = true ∧ s.executor.Hands (.scenario (notRun f c index)) u (errorIn o) ∧
          (∀ r, o = .ok r → r = notRun f c index) ∨
        x = false ∧ (s.executor.run c (some f) (some (f.idOf index c))).Runs u o) := by
  obtain ⟨v, u, x, rfl, hv, hk⟩ := Program.runs_bind_iff.1 h
  obtain ⟨b, rfl⟩ := Program.runs_request_iff.1 hv
  change Bool at x
  refine ⟨x, b, u, rfl, ?_⟩
  cases x with
  | false => exact .inr ⟨rfl, hk⟩
  | true =>
    refine .inl ⟨rfl, ?_⟩
    rw [if_pos rfl] at hk
    split at hk
    · rename_i hs
      obtain ⟨v, w, e, rfl, hv, hend⟩ := Program.runs_bind_iff.1 hk
      obtain ⟨b, rfl⟩ := Program.runs_request_iff.1 hv
      change Option Fault at e
      cases e with
      | some g =>
        obtain ⟨rfl, rfl⟩ := Program.runs_done_iff.1 hend
        exact ⟨.loud _ _ hs, nofun⟩
      | none =>
        obtain ⟨rfl, rfl⟩ := Program.runs_done_iff.1 hend
        exact ⟨.loud _ _ hs, fun r hr => (Except.ok.inj hr).symm⟩
    · rename_i hs
      obtain ⟨rfl, rfl⟩ := Program.runs_done_iff.1 hk
      exact ⟨.silent (Bool.not_eq_true _ ▸ hs), fun r hr => (Except.ok.inj hr).symm⟩

/-- What is put into the pool for a feature. -/
def jobs (s : Suite) (f : Feature) : List Job := f.numbered.map fun p => s.scenarioJob f p.1 p.2

theorem getElem?_jobs (s : Suite) (f : Feature) (i : Nat) :
    (s.jobs f)[i]? = f.scenarios[i]?.map fun c => s.scenarioJob f c i := by
  rw [jobs, Feature.numbered, List.getElem?_map, List.getElem?_zipIdx, Nat.zero_add, Option.map_map]
  rfl

theorem length_jobs (s : Suite) (f : Feature) : (s.jobs f).length = f.scenarios.length := by
  rw [jobs, List.length_map, Feature.numbered, List.length_zipIdx]

theorem runInPool_eq (s : Suite) (f : Feature) :
    s.runInPool f = Action.pool (s.jobs f) >>= fun ends => ends.mapM Action.collect := rfl

theorem run_runInPool (s : Suite) (f : Feature) (l : List FeatureResult) :
    (s.runInPool f).run.run l = .ask (.pool (s.jobs f)) fun ends =>
      (Action.collect ((ends : List (Except Fault ScenarioResult)).mapM id)).run.run l :=
  congrArg (Program.ask _) (funext fun ends => run_mapM_collect ends)

/-- A pool that its suite gets beyond is not cut short by an interrupt. -/
theorem goes_runInPool {o : Except Fault (List ScenarioResult)} (h : Goes (s.runInPool f) l t o l') :
    l' = l ∧ (∀ e, o = .error e → e.family ≠ .interrupt) ∧
      ∃ ends, Overlap (s.jobs f) ends t ∧ o = ends.mapM id := by
  rw [runInPool_eq] at h
  obtain ⟨ends, u, v, rfl, hover, hk⟩ := goes_pool_bind_iff.1 h
  obtain ⟨rfl, rfl, rfl, hcalm⟩ := goes_mapM_collect_iff.1 hk
  rw [List.append_nil]
  exact ⟨rfl, hcalm, ends, hover, rfl⟩

/-- The results that are kept are those from before. -/
def Still (l : List FeatureResult) (_ : Trace) (_ : Option Fault) (l' : List FeatureResult) : Prop :=
  l' = l

theorem loopActs_still : LoopActs s features Still (fun _ => True) (fun _ => True) where
  refl _ := rfl
  trans h h' := h'.trans h
  aside _ _ := rfl
  call _ _ _ _ _ _ _ _ h := (goes_invoke h).1
  emit _ _ _ _ _ _ h := (goes_emit h).1
  admitsRecord _ _ := trivial
  admitsScope _ _ := trivial
  stray _ _ _ := rfl
  scenario _ _ _ _ _ _ _ _ h := (goes_job_iff.1 h).1
  pool _ _ _ _ _ _ _ h := (goes_runInPool h).1

/-- Before a feature nothing is seen but that the signal is asked. -/
theorem goes_ask {ready : Bool} {o : Except Fault Bool}
    (h : Goes (if ready then Action.aborted else pure true) l t o l') :
    l' = l ∧ t.offstage = true ∧ ∃ skipped, o = .ok skipped := by
  split at h
  · obtain ⟨rfl, x, b, rfl, rfl⟩ := goes_perform_iff.1 h
    exact ⟨rfl, rfl, x, rfl⟩
  · obtain ⟨rfl, rfl, rfl⟩ := goes_pure_iff.1 h
    exact ⟨rfl, rfl, true, rfl⟩

/-- A turn of the loop over the features: once the signal was asked, the feature is run or skipped. Its
result is kept and the loop goes on, unless the feature is cut short. -/
theorem goes_runFeatures_cons {ready : Bool} {f : Feature} {fs : List Feature} {o : Except Fault Unit}
    (h : Goes (s.runFeatures ready (f :: fs)) l t o l') :
    ∃ (skipped : Bool) (u v : Trace), t = u ++ v ∧ u.offstage = true ∧
      ((∃ r w z, v = w ++ z ∧
          Goes (if skipped then s.skipFeature f else s.runFeature f) l w (.ok r) l ∧
          Goes (s.runFeatures ready fs) (l ++ [r]) z o l') ∨
        ∃ e, o = .error e ∧ l' = l ∧
          Goes (if skipped then s.skipFeature f else s.runFeature f) l v (.error e) l) := by
  have A : LoopActs s [f] Still _ _ := loopActs_still
  rw [runFeatures_cons] at h
  rcases goes_bind_iff.1 h with ⟨u, v, skipped, l₁, rfl, hask, h₁⟩ | ⟨e, _, hask⟩
  swap
  · obtain ⟨_, _, _, he⟩ := goes_ask hask
    cases he
  obtain ⟨rfl, hoff, _⟩ := goes_ask hask
  refine ⟨skipped, u, v, rfl, hoff, ?_⟩
  rcases goes_bind_iff.1 h₁ with ⟨w, z, r, l₂, rfl, hr, h₂⟩ | ⟨e, rfl, hr⟩
  · obtain rfl : l₂ = l₁ := A.turn List.mem_cons_self hr
    exact .inl ⟨r, w, z, rfl, hr, goes_modify_bind_iff.1 h₂⟩
  · obtain rfl : l' = l₁ := A.turn List.mem_cons_self hr
    exact .inr ⟨e, rfl, rfl, hr⟩

/-- What an interrupt is answered by: the signal is given, and the features that have no result are gone
through once more as in a suite that is not ready. -/
theorem goes_salvage {features : List Feature} (h : Goes (s.salvage features) l t (.ok ()) l') :
    ∃ b u v, t = ⟨.abort (some "interrupted"), (), b⟩ :: (u ++ v) ∧ Trace.offstage u = true ∧
      Goes (s.runFeatures false (features.drop l.length)) l v (.ok ()) l' := by
  obtain ⟨_, b, v, rfl, h₁⟩ := goes_perform_bind_iff.1 h
  rw [goes_get_bind_iff] at h₁
  obtain ⟨u, w, _, l₁, rfl, hlog, h₂⟩ := goes_bind_ok_iff.1 h₁
  obtain ⟨rfl, hoff, _⟩ := goes_log hlog
  rw [skipFeatures_eq] at h₂
  exact ⟨b, u, w, rfl, hoff, h₂⟩

/-- What is looked for does not show. -/
def Unseen {α : Type} (g : Moment Request.Answer Bool → Option α) (_ : List FeatureResult)
    (t : Trace) (_ : Option Fault) (_ : List FeatureResult) : Prop :=
  t.filterMap g = []

section Unseen
variable {α : Type} {g : Moment Request.Answer Bool → Option α}

theorem unseen_hands {r : Record} {e : Option Fault}
    (hr : ∀ (f : Option Fault) b, g ⟨.emit r, f, b⟩ = none) (h : s.executor.Hands r t e) :
    t.filterMap g = [] := by
  cases h with
  | silent _ => rfl
  | loud e b _ =>
    rw [List.filterMap_cons, hr e b]
    rfl

theorem hookActs_unseen {P : Record → Prop} {C : Scope → Prop}
    (hoff : ∀ m, m.isOffstage = true → g m = none)
    (hP : ∀ (r : Record) (f : Option Fault) b, P r → g ⟨.emit r, f, b⟩ = none)
    (hC : ∀ k scope (f : Option Fault) b, C scope → g ⟨.call k [.scope scope], f, b⟩ = none) :
    HookActs s (Unseen g) P C := by
  have haside : ∀ {t : Trace}, t.offstage = true → t.filterMap g = [] := by
    intro t ht
    rw [List.filterMap_eq_nil_iff]
    exact fun m hm => hoff m (List.all_eq_true.1 ht m hm)
  refine ⟨⟨fun _ => rfl, ?_⟩, fun ht _ => haside ht, ?_, ?_⟩
  · intro _ _ _ t u _ ht hu
    have ht : t.filterMap g = [] := ht
    have hu : u.filterMap g = [] := hu
    rw [Unseen, List.filterMap_append, ht, hu, List.append_nil]
  · intro callable scope place hscope l t o l' h
    obtain ⟨_, f, b, u, rfl, hu, _⟩ := goes_invoke h
    rw [Unseen, List.filterMap_cons, hC callable scope f b hscope, haside hu]
  · intro r hr l t o l' h
    exact unseen_hands (fun f b => hP r f b hr) (goes_emit h).2

theorem unseen_scenarioJob (B : Executor.Blind g)
    (hcall : ∀ k v args (f : Option Fault) b, g ⟨.call k (.value v :: args), f, b⟩ = none)
    (hhook : ∀ (r : HookResult) (f : Option Fault) b, r.phase.instanceBound = true →
      g ⟨.emit (.hook r), f, b⟩ = none)
    {o : Except Fault ScenarioResult} (h : (s.scenarioJob f c index).Runs t o) :
    t.filterMap g = [] := by
  obtain ⟨x, b, u, rfl, hu⟩ := runs_scenarioJob h
  rw [List.filterMap_cons, B.offstage _ rfl]
  rcases hu with ⟨_, hh, _⟩ | ⟨_, hrun⟩
  · exact unseen_hands (fun f b => B.record _ f b rfl) hh
  · exact B.run hcall hhook hrun

theorem unseen_overlap (B : Executor.Blind g)
    (hcall : ∀ k v args (f : Option Fault) b, g ⟨.call k (.value v :: args), f, b⟩ = none)
    (hhook : ∀ (r : HookResult) (f : Option Fault) b, r.phase.instanceBound = true →
      g ⟨.emit (.hook r), f, b⟩ = none)
    {ends : List (Except Fault ScenarioResult)} (h : Overlap (s.jobs f) ends t) :
    t.filterMap g = [] := by
  rw [List.filterMap_eq_nil_iff]
  intro m hm
  obtain ⟨j, hj, u, o, hrun, hmu⟩ := h.exists_job hm
  obtain ⟨p, _, rfl⟩ := List.mem_map.1 hj
  exact List.filterMap_eq_nil_iff.1 (unseen_scenarioJob B hcall hhook hrun) m hmu

/-- What shows neither in the calls and hooks of scenarios nor in those of features does not show in
the loop over the features. -/
theorem suiteActs_unseen {P : Record → Prop} {C : Scope → Prop} (B : Executor.Blind g)
    (hcall : ∀ k v args (f : Option Fault) b, g ⟨.call k (.value v :: args), f, b⟩ = none)
    (hhook : ∀ (r : HookResult) (f : Option Fault) b, r.phase.instanceBound = true →
      g ⟨.emit (.hook r), f, b⟩ = none)
    (hP : ∀ (r : Record) (f : Option Fault) b, P r → g ⟨.emit r, f, b⟩ = none)
    (hC : ∀ k scope (f : Option Fault) b, C scope → g ⟨.call k [.scope scope], f, b⟩ = none)
    (hloop : ∀ r, ofLoop r = true → P r) (hfeature : ∀ f r, C (.feature f r)) :
    SuiteActs s features (Unseen g) P C := by
  refine ⟨⟨hookActs_unseen B.offstage hP hC, hloop, hfeature, fun _ _ _ => rfl,
    fun f _ p _ => ?_, fun _ f _ => ?_⟩, fun _ _ => rfl⟩
  · intro l t o l' h
    exact unseen_scenarioJob B hcall hhook (goes_job_iff.1 h).2
  · intro l t o l' h
    obtain ⟨_, _, ends, hover, _⟩ := goes_runInPool h
    exact unseen_overlap B hcall hhook hover

end Unseen

/-- Only the run of a suite itself resets the signal. -/
theorem suiteActs_unreset :
    SuiteActs s features (Unseen Moment.reset?) (fun _ => True) (fun _ => True) :=
  suiteActs_unseen Executor.blind_reset (fun _ _ _ _ _ => rfl) (fun _ _ _ _ => rfl)
    (fun _ _ _ _ => rfl) (fun _ _ _ _ _ => rfl) (fun _ _ => trivial) fun _ _ => trivial

/-- What cuts an action short was raised by the sink, as far as tags and coercers are orderly. -/
def Raised (s : Suite) (features : List Feature) (_ : List FeatureResult) (t : Trace)
    (e : Option Fault) (_ : List FeatureResult) : Prop :=
  s.Orderly features → t.tame = true → ∀ f, e = some f → ∃ r, (r, some f) ∈ t.handed

theorem mem_handed_of_hands {r : Record} {g : Fault} (h : s.executor.Hands r t (some g)) :
    (r, some g) ∈ t.handed := by
  cases h with
  | loud _ _ _ => exact List.mem_singleton_self _

theorem raised_scenarioJob {g : Fault} (h : (s.scenarioJob f c index).Runs t (.error g))
    (ho : s.Orderly features) (hf : f ∈ features) (hc : c ∈ f.scenarios) (ht : t.tame = true) :
    ∃ r, (r, some g) ∈ t.handed := by
  obtain ⟨x, b, u, rfl, hu⟩ := runs_scenarioJob h
  suffices hv : ∃ r, (r, some g) ∈ Trace.handed u from hv
  rcases hu with ⟨_, hh, _⟩ | ⟨_, hrun⟩
  · exact ⟨_, mem_handed_of_hands hh⟩
  · rw [Trace.tame_cons, Bool.and_eq_true] at ht
    exact Executor.raised_run hrun (ho.executor hf hc _) ht.2

/-- The first fault among the ends of jobs was raised by the sink. -/
theorem raised_overlap {ends : List (Except Fault ScenarioResult)} {g : Fault} (hf : f ∈ features)
    (h : Overlap (s.jobs f) ends t) (hg : ends.mapM id = .error g) (ho : s.Orderly features)
    (ht : t.tame = true) : ∃ r, (r, some g) ∈ t.handed := by
  obtain ⟨e, he, hid⟩ := exists_of_mapM_eq_error hg
  obtain rfl : e = .error g := hid
  obtain ⟨j, hj, u, hu, hrun⟩ := h.exists_end he
  obtain ⟨p, hp, rfl⟩ := List.mem_map.1 hj
  obtain ⟨r, hr⟩ :=
    raised_scenarioJob hrun ho hf (mem_of_mem_numbered hp) (Trace.tame_of_sublist hu ht)
  exact ⟨r, (Trace.handed_sublist hu).subset hr⟩

theorem raised_runInPool {o : Except Fault (List ScenarioResult)} (hf : f ∈ features)
    (h : Goes (s.runInPool f) l t o l') : s.Raised features l t (errorIn o) l' := by
  intro ho ht g hg
  obtain ⟨_, _, ends, hover, rfl⟩ := goes_runInPool h
  cases hends : ends.mapM id with
  | ok _ =>
    rw [hends] at hg
    cases hg
  | error _ =>
    rw [hends] at hg
    cases hg
    exact raised_overlap hf hover hends ho ht

theorem suiteActs_raised :
    SuiteActs s features (s.Raised features) (fun _ => True) (fun _ => True) where
  refl _ _ _ _ hf := nomatch hf
  trans {_ _ _ t u _} _ hu ho ht f hf := by
    rw [Trace.tame_append, Bool.and_eq_true] at ht
    obtain ⟨r, hr⟩ := hu ho ht.2 f hf
    exact ⟨r, by rw [Trace.handed_append]; exact List.mem_append_right _ hr⟩
  aside _ he _ ht f hf := nomatch (he ht).symm.trans hf
  call callable scope place _ := by
    intro l t o l' h _ ht f hf
    obtain ⟨_, _, _, _, _, _, _, hok⟩ := goes_invoke h
    rw [hok ht] at hf
    cases hf
  emit r _ := by
    intro l t o l' h _ _ f hf
    have hh := (goes_emit h).2
    rw [hf] at hh
    exact ⟨r, mem_handed_of_hands hh⟩
  admitsRecord _ _ := trivial
  admitsScope _ _ := trivial
  stray hn _ _ ho := absurd ho hn
  scenario f hf p hp := by
    intro l t o l' h ho ht g hg
    cases o with
    | ok _ => cases hg
    | error e =>
      cases hg
      exact raised_scenarioJob (goes_job_iff.1 h).2 ho hf (mem_of_mem_numbered hp) ht
  pool _ f hf _ _ _ _ h := raised_runInPool hf h
  keep _ _ _ _ _ hf := nomatch hf

/-- A sink that takes every record cuts nothing short. -/
theorem none_of_raised {e : Option Fault} (h : s.Raised features l t e l') (ho : s.Orderly features)
    (ht : t.tame = true) (hk : t.taken = true) : e = none := by
  cases e with
  | none => rfl
  | some f =>
    obtain ⟨r, hr⟩ := h ho ht f rfl
    cases Option.isNone_iff_eq_none.1 (List.all_eq_true.1 hk _ hr)

def flush (s : Suite) : Action Unit :=
  if s.hasSink then do Action.proceed (← Action.perform .flush) else pure ()

/-- The end of a run, when its result is made. -/
def finish (s : Suite) (r : SuiteResult) : Action SuiteResult := do
  s.emit (.suite r)
  s.flush
  s.log .info "suite finished"
    [("status", .status r.status), ("aborted", .plain (.bool r.aborted)),
      ("exit_code", .nat r.exitCode)]
  return r

/-- The message with which a run begins. -/
def greet (s : Suite) (features : List Feature) : Action Unit :=
  s.log .info "suite started" [("features", .nat features.length), ("workers", .nat s.workers)]

/-- What comes after the loop over the features and what it was recovered by: the hooks after the suite,
and the result if there is one. -/
def close (s : Suite) (features : List Feature) (hooks : List HookResult) (outcome : Except Fault Unit) :
    Action SuiteResult := do
  let soFar ← s.result hooks
  let after ← s.runHooks .afterSuite (.suite features (some soFar))
  Action.settle outcome
  let result ← s.result (hooks ++ after)
  s.finish result

/-- A run, once the signal is reset. -/
def conduct (s : Suite) (features : List Feature) : Action SuiteResult := do
  s.greet features
  let hooks ← s.runHooks .beforeSuite (.suite features none)
  let outcome ← s.recover features (← Action.observe (s.runFeatures (allWell hooks) features))
  s.close features hooks outcome

theorem runAll_eq (s : Suite) (features : List Feature) :
    s.runAll features = Action.perform .resetAbort >>= fun _ => s.conduct features := by
  unfold runAll conduct close finish flush greet
  cases s.hasSink <;> rfl

/-- What comes before the loop over the features. -/
def opening (s : Suite) (features : List Feature) : Action (List HookResult) := do
  Action.perform .resetAbort
  s.greet features
  s.runHooks .beforeSuite (.suite features none)

/-- What comes after the loop, however it ended. -/
def closing (s : Suite) (features : List Feature) (hooks : List HookResult) (outcome : Except Fault Unit) :
    Action SuiteResult := do
  let outcome ← s.recover features outcome
  s.close features hooks outcome

theorem runAll_eq_parts (s : Suite) (features : List Feature) :
    s.runAll features = (do
      let hooks ← s.opening features
      let outcome ← Action.observe (s.runFeatures (allWell hooks) features)
      s.closing features hooks outcome) := by
  rw [runAll_eq]
  refine Eq.trans ?_ (bind_assoc _ _ _).symm
  exact congrArg _ (funext fun _ => (bind_assoc _ _ _).symm)

theorem goes_flush {o : Except Fault Unit} (h : Goes s.flush l t o l') :
    l' = l ∧ t.handed = [] ∧ t.calls = [] ∧ (t.flushed = true → o = .ok ()) := by
  rw [flush] at h
  split at h
  · obtain ⟨rfl, f, b, rfl, ho⟩ := goes_perform_proceed_iff.1 h
    change Option Fault at f
    refine ⟨rfl, rfl, rfl, fun hf => ?_⟩
    cases o with
    | ok _ => rfl
    | error g =>
      obtain rfl : some g = f := ho
      cases hf
  · obtain ⟨rfl, rfl, rfl⟩ := goes_pure_iff.1 h
    exact ⟨rfl, rfl, rfl, fun _ => rfl⟩

theorem HookActs.finish {K : List FeatureResult → Trace → Option Fault → List FeatureResult → Prop}
    {P : Record → Prop} {C : Scope → Prop} (A : HookActs s K P C) {r : SuiteResult}
    (hP : P (.suite r)) (hflush : Carries K s.flush) : Carries K (s.finish r) := by
  have hseq := A.toSequential
  refine carries_bind hseq (A.emit _ hP) fun _ => carries_bind hseq hflush fun _ => ?_
  exact carries_bind hseq A.log fun _ => carries_pure hseq _

theorem records_of_hands {r : Record} {e : Option Fault} (h : s.executor.Hands r t e) :
    t.records = if s.hasSink then [r] else [] := by
  cases h with
  | silent hs =>
    have hs : s.hasSink = false := hs
    rw [hs]
    rfl
  | loud _ _ hs =>
    have hs : s.hasSink = true := hs
    rw [hs]
    rfl

/-- A suite is finished by telling of its result and by what hands no record on and calls nothing. -/
theorem parts_of_finish {r r' : SuiteResult} (h : Goes (s.finish r) l t (.ok r') l') :
    ∃ u v w, t = u ++ (v ++ w) ∧ r' = r ∧ Goes (s.emit (.suite r)) l u (.ok ()) l ∧
      v.handed = [] ∧ v.calls = [] ∧ Trace.offstage w = true := by
  obtain ⟨u, _, _, l₁, rfl, hemit, h₁⟩ := goes_bind_ok_iff.1 h
  obtain ⟨v, w, _, l₂, rfl, hflush, h₂⟩ := goes_bind_ok_iff.1 h₁
  obtain ⟨_, rfl, hlog⟩ := goes_bind_pure_ok_iff.1 h₂
  obtain rfl := (goes_emit hemit).1
  obtain ⟨_, hhanded, hcalls, _⟩ := goes_flush hflush
  exact ⟨u, v, w, rfl, rfl, hemit, hhanded, hcalls, (goes_log hlog).2.1⟩

theorem goes_finish {r r' : SuiteResult} (h : Goes (s.finish r) l t (.ok r') l') :
    r' = r ∧ t.calls = [] ∧ t.records = if s.hasSink then [.suite r] else [] := by
  obtain ⟨u, w, z, rfl, rfl, hemit, hw, hcalls, hz⟩ := parts_of_finish h
  have hu := (goes_emit hemit).2
  refine ⟨rfl, ?_, ?_⟩
  · rw [Trace.calls_append, Trace.calls_append, hu.calls, hcalls,
      Trace.calls_of_offstage hz]
    rfl
  · rw [Trace.records_append, Trace.records_append, records_of_hands hu,
      Trace.records_of_offstage hz, Trace.records, hw]
    simp

/-- What every act shows is shown by a run, apart from the reset with which it begins. -/
theorem SuiteActs.runAll {L : Trace → Prop} {o : Except Fault SuiteResult}
    (A : SuiteActs s features (fun _ t _ _ => L t) (fun _ => True) (fun _ => True))
    (hL : ∀ x b, L [⟨.flush, x, b⟩]) (h : Goes (s.runAll features) l t o l') :
    ∃ b u, t = ⟨.resetAbort, (), b⟩ :: u ∧ L u := by
  have hseq := A.toSequential
  have hhooks : ∀ phase shown,
      Carries (fun _ t _ _ => L t) (s.runHooks phase (.suite features shown)) :=
    fun _ _ => A.suiteHooks trivial fun _ _ => trivial
  have hresult : ∀ hooks, Carries (fun _ t _ _ => L t) (s.result hooks) := by
    intro hooks l t o l' h
    obtain ⟨_, x, b, rfl, _⟩ := goes_result_iff.1 h
    exact A.aside (l := l) (e := none) rfl fun _ => rfl
  have hflush : Carries (fun _ t _ _ => L t) s.flush := by
    intro l t o l' h
    rw [flush] at h
    split at h
    · obtain ⟨_, x, b, rfl, _⟩ := goes_perform_proceed_iff.1 h
      exact hL x b
    · exact carries_pure hseq _ h
  rw [runAll_eq] at h
  obtain ⟨⟨⟩, b, u, rfl, hrest⟩ := goes_perform_bind_iff.1 h
  refine ⟨b, u, rfl, ?_⟩
  have hclose : ∀ (outcome : Except Fault Unit) hooks,
      Carries (fun _ t _ _ => L t) (s.close features hooks outcome) := by
    intro outcome hooks
    refine carries_bind hseq (hresult _) fun _ => carries_bind hseq (hhooks _ _) fun _ => ?_
    refine carries_settle_bind (fun _ _ l => A.refl l) fun _ _ => ?_
    exact carries_bind hseq (hresult _) fun _ => A.finish trivial hflush
  refine carries_bind hseq A.log (fun _ => carries_bind hseq (hhooks _ _) fun hooks => ?_) hrest
  intro l t o l' h
  obtain ⟨t₁, u, o₁, l₁, rfl, hloop, hk⟩ := goes_observe_bind_iff.1 h
  refine @Sequential.trans _ _ _ _ _ (fun _ t _ _ => L t) hseq l l₁ l' t₁ u (errorIn o) ?_ ?_
  · exact A.runFeatures (fun _ => id) hloop
  · exact carries_bind hseq A.recover (fun outcome => hclose outcome hooks) hk

end Rehearsal.Suite
