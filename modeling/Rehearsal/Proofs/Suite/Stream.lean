import Rehearsal.Proofs.Scenario.Telling
import Rehearsal.Proofs.Suite.Interruption
import Rehearsal.Proofs.Suite.Surroundings

/-! What the stream of records tells. Where scenarios run in order and the sink takes every record, the
records that are handed over are enough to make the result of the suite again: the result comes last, each
feature is a chapter whose result closes it, and each scenario that is begun is told of from its opening to
its result. -/

namespace Rehearsal
set_option autoImplicit false

namespace HookPhase

def ofFeature : HookPhase → Bool
  | beforeFeature | afterFeature => true
  | _ => false

def ofSuite : HookPhase → Bool
  | beforeSuite | afterSuite => true
  | _ => false

end HookPhase

namespace Record
variable {α : Type} {rs rs' : List Record} {fs fs' : List FeatureResult} {ss ss' : List ScenarioResult}
  {hs hs' : List HookResult} {id : String}

def feature? : Record → Option FeatureResult
  | feature r => some r
  | _ => none

/-- The records since the last one of a kind. -/
def since (g : Record → Option α) (rs : List Record) : List Record := rs.rtakeWhile fun r => (g r).isNone

theorem since_append (g : Record → Option α) (rs rs' : List Record) :
    since g (rs ++ rs') = since g rs' ∨
      since g rs' = rs' ∧ since g (rs ++ rs') = since g rs ++ rs' :=
  rtakeWhile_append _ rs rs'

theorem since_eq_self {g : Record → Option α} (h : ∀ r ∈ rs, g r = none) : since g rs = rs :=
  rtakeWhile_isNone_eq_self h

theorem since_concat {g : Record → Option α} {r : Record} (h : (g r).isSome = true) :
    since g (rs ++ [r]) = [] :=
  rtakeWhile_isNone_concat h

theorem feature?_of_midway {r : Record} (h : r.midway = true) : r.feature? = none := by
  cases r with
  | feature _ => cases h
  | _ => rfl

theorem filterMap_hookOf_map {p : HookPhase → Bool} (h : ∀ k ∈ hs, p k.phase = true) :
    (hs.map Record.hook).filterMap (hookOf? p) = hs := by
  rw [List.filterMap_map]
  refine (List.filterMap_congr fun k hk => ?_).trans List.filterMap_some
  simp [hookOf?, hook?, h k hk]

/-- The results of scenarios, and of hooks around features, that were handed over. -/
structure Pending (rs : List Record) (ss : List ScenarioResult) (hs : List HookResult) : Prop where
  scenarios : rs.filterMap scenario? = ss
  hooks : rs.filterMap (hookOf? HookPhase.ofFeature) = hs

theorem pending_nil : Pending [] [] [] := ⟨rfl, rfl⟩

theorem Pending.append (h : Pending rs ss hs) (h' : Pending rs' ss' hs') :
    Pending (rs ++ rs') (ss ++ ss') (hs ++ hs') :=
  ⟨by rw [List.filterMap_append, h.scenarios, h'.scenarios],
    by rw [List.filterMap_append, h.hooks, h'.hooks]⟩

theorem Pending.since_append (h : Pending (since feature? rs) [] [])
    (h' : Pending (since feature? rs') ss hs) : Pending (since feature? (rs ++ rs')) ss hs := by
  rcases Record.since_append feature? rs rs' with hlate | ⟨hself, hboth⟩
  · rwa [hlate]
  · rw [hboth]
    exact h.append (hself ▸ h')

/-- Records that tell of features, one after the other: whatever was handed over of a feature is closed
by its result, which lists it. -/
structure Chapters (rs : List Record) (fs : List FeatureResult) : Prop where
  features : rs.filterMap feature? = fs
  spans : ∀ u g v, rs = u ++ .feature g :: v → Pending (since feature? u) g.scenarios g.hooks
  settled : Pending (since feature? rs) [] []

theorem Chapters.append (h : Chapters rs fs) (h' : Chapters rs' fs') :
    Chapters (rs ++ rs') (fs ++ fs') where
  features := by rw [List.filterMap_append, h.features, h'.features]
  spans u g v hsplit := by
    rcases split_append hsplit with ⟨u', rfl, hlate⟩ | ⟨v', hearly, _⟩
    · exact h.settled.since_append (h'.spans u' g v hlate)
    · exact h.spans u g v' hearly
  settled := h.settled.since_append h'.settled

theorem chapters_of_pending (hrs : ∀ r ∈ rs, r.feature? = none) (h : Pending rs [] []) :
    Chapters rs [] where
  features := List.filterMap_eq_nil_iff.2 hrs
  spans u g v hsplit := by
    subst hsplit
    cases hrs _ (List.mem_append_right u List.mem_cons_self)
  settled := by rwa [since_eq_self hrs]

theorem chapters_concat {g : FeatureResult} (hrs : ∀ r ∈ rs, r.feature? = none)
    (h : Pending rs g.scenarios g.hooks) : Chapters (rs ++ [.feature g]) [g] where
  features := by rw [List.filterMap_append, List.filterMap_eq_nil_iff.2 hrs]; rfl
  spans u g' v hsplit := by
    -- No record before the last one is the result of a feature.
    rcases split_append hsplit with ⟨u', rfl, hlast⟩ | ⟨v', rfl, _⟩
    · cases u' with
      | nil =>
        cases hlast
        rwa [List.append_nil, since_eq_self hrs]
      | cons r u' => cases u' <;> cases hlast
    · cases hrs _ (List.mem_append_right u List.mem_cons_self)
  settled := by
    rw [since_concat rfl]
    exact pending_nil

/-- A scenario was opened, and since then only what is its own was handed over. -/
def Opened (rs : List Record) (id : String) (own : List Record) : Prop :=
  ∃ early, rs = early ++ .stage ⟨id, .initializing, none, none⟩ :: own ∧ ∀ r ∈ own, r.midway = true

/-- No scenario was opened since the last result of one. -/
def Unopened (rs : List Record) : Prop := ∀ r ∈ since scenario? rs, r.opening? = none

theorem Opened.append {own : List Record} (h : Opened rs id own) : Opened (rs' ++ rs) id own := by
  obtain ⟨early, rfl, hown⟩ := h
  exact ⟨rs' ++ early, (List.append_assoc ..).symm, hown⟩

theorem Unopened.append (h : Unopened rs) (h' : Unopened rs') : Unopened (rs ++ rs') := by
  intro r hr
  rcases since_append scenario? rs rs' with hlate | ⟨hself, hboth⟩
  · exact h' r (hlate ▸ hr)
  · rw [hboth] at hr
    rcases List.mem_append.1 hr with hr | hr
    · exact h r hr
    · exact h' r (hself.symm ▸ hr)

theorem unopened_concat (rs : List Record) (r : ScenarioResult) : Unopened (rs ++ [.scenario r]) := by
  rw [Unopened, since_concat rfl]
  exact List.forall_mem_nil _

theorem unopened_of_forall (h : ∀ r ∈ rs, r.opening? = none) : Unopened rs :=
  fun r hr => h r ((List.rtakeWhile_suffix _ rs).mem hr)

end Record

namespace Suite
variable {s : Suite} {features : List Feature} {f : Feature} {l l' : List FeatureResult}
  {t u v : Trace} {m : Moment Request.Answer Bool} {c : ScenarioResult}
  {rs rs' : List ScenarioResult} {hooks hooks' : List HookResult} {added more : List FeatureResult}

/-- What is told of a scenario before its result is handed over. If the scenario was begun, it was opened
and all that its result lists was handed over since, and nothing else. If not, it was not opened. -/
inductive Account (s : Suite) (features : List Feature) (u : Trace) (m : Moment Request.Answer Bool)
    (v : Trace) (c : ScenarioResult) : Prop where
  | begun (f : Feature) (p : Scenario × Nat) (own : List Record) (early run rest late : Trace) :
      f ∈ features → p ∈ f.numbered → u = early ++ run → v = rest ++ late →
      (s.executor.run p.1 (some f) (some (f.idOf p.2 p.1))).Runs (run ++ m :: rest) (.ok c) →
      Record.Opened u.records c.scenarioId own → own.filterMap Record.step? = c.steps →
      own.filterMap (Record.hookOf? HookPhase.instanceBound) = c.hooks → Account s features u m v c
  | unbegun (f : Feature) (p : Scenario × Nat) : f ∈ features → p ∈ f.numbered →
      Record.Unopened u.records → c = notRun f p.1 p.2 → Account s features u m v c

/-- Every result of a scenario that is handed over is accounted for, and no scenario is left open. -/
structure Accounts (s : Suite) (features : List Feature) (t : Trace) : Prop where
  told : ∀ u m v c, t = u ++ m :: v → m.told? = some c → s.Account features u m v c
  closed : Record.Unopened t.records

theorem Account.append_left (ht : Record.Unopened t.records) (h : s.Account features u m v c) :
    s.Account features (t ++ u) m v c := by
  cases h with
  | begun f p own early run rest late hf hp hu hv hrun hopened hsteps hhooks =>
    refine .begun f p own (t ++ early) run rest late hf hp (by rw [hu, List.append_assoc]) hv hrun ?_
      hsteps hhooks
    rw [Trace.records_append]
    exact hopened.append
  | unbegun f p hf hp hun hc =>
    refine .unbegun f p hf hp ?_ hc
    rw [Trace.records_append]
    exact ht.append hun

theorem Account.append_right (h : s.Account features u m v c) :
    s.Account features u m (v ++ t) c := by
  cases h with
  | begun f p own early run rest late hf hp hu hv hrun hopened hsteps hhooks =>
    exact .begun f p own early run rest (late ++ t) hf hp hu (by rw [hv, List.append_assoc]) hrun hopened
      hsteps hhooks
  | unbegun f p hf hp hun hc => exact .unbegun f p hf hp hun hc

theorem Accounts.append (ht : s.Accounts features t) (hu : s.Accounts features u) :
    s.Accounts features (t ++ u) where
  told w m v c hsplit hm := by
    rcases split_append hsplit with ⟨w', rfl, hlate⟩ | ⟨v', hearly, rfl⟩
    · exact (hu.told w' m v c hlate hm).append_left ht.closed
    · exact (ht.told w m v' c hearly hm).append_right
  closed := by
    rw [Trace.records_append]
    exact ht.closed.append hu.closed

theorem records_of_told (hm : m.told? = some c) :
    Trace.records (u ++ m :: v) = u.records ++ .scenario c :: v.records := by
  obtain ⟨⟨r, e⟩, hp, hr⟩ := Option.bind_eq_some_iff.1 hm
  cases r with
  | scenario _ =>
    cases hr
    have hlast : Trace.records (m :: v) = .scenario c :: v.records :=
      congrArg (List.map Prod.fst) (List.filterMap_cons_some hp)
    rw [Trace.records_append, hlast]
  | _ => cases hr

theorem accounts_of_untold (hscenario : ∀ r ∈ t.records, r.scenario? = none)
    (hopening : ∀ r ∈ t.records, r.opening? = none) : s.Accounts features t where
  told u m v c hsplit hm := by
    subst hsplit
    rw [records_of_told hm] at hscenario
    cases hscenario _ (List.mem_append_right _ List.mem_cons_self)
  closed := Record.unopened_of_forall hopening

/-- The result of a scenario that was not started is handed over alone. -/
theorem accounts_notRun {p : Scenario × Nat} {b : Bool} (hf : f ∈ features) (hp : p ∈ f.numbered) :
    s.Accounts features [⟨.emit (.scenario (notRun f p.1 p.2)), none, b⟩] where
  told u m v c hsplit hm := by
    cases u with
    | nil =>
      cases hsplit
      cases hm
      exact .unbegun f p hf hp (List.forall_mem_nil _) rfl
    | cons _ u => cases u <;> cases hsplit
  closed := Record.unopened_concat [] _

/-- A run hands over one result of a scenario, which is its own and comes last. -/
theorem accounts_run {p : Scenario × Nat} (hf : f ∈ features) (hp : p ∈ f.numbered)
    (hsink : s.hasSink = true)
    (h : (s.executor.run p.1 (some f) (some (f.idOf p.2 p.1))).Runs t (.ok c)) :
    s.Accounts features t := by
  obtain ⟨own, hrecords, hown, hsteps, hhooks⟩ := Executor.records_of_run h hsink
  rw [← List.cons_append] at hrecords
  refine ⟨fun u m v c' hsplit hm => ?_, hrecords ▸ Record.unopened_concat _ c⟩
  subst hsplit
  rw [records_of_told hm] at hrecords
  rcases split_append hrecords.symm with ⟨u', hu, hlast⟩ | ⟨v', hearly, _⟩
  · cases u' with
    | nil =>
      obtain ⟨hc, _⟩ := List.cons.inj hlast
      cases hc
      rw [List.append_nil] at hu
      exact .begun f p own [] u v [] hf hp rfl (List.append_nil v).symm h ⟨[], hu, hown⟩ hsteps hhooks
    | cons _ u' => cases u' <;> cases hlast
  · -- Neither the opening nor what comes midway is the result of a scenario.
    have hmem : .scenario c' ∈ (.stage ⟨c.scenarioId, .initializing, none, none⟩ :: own : List Record) :=
      hearly ▸ List.mem_append_right _ List.mem_cons_self
    rcases List.mem_cons.1 hmem with he | hmem
    · cases he
    · cases hown _ hmem

/-- A part of the turn of a feature, before its result: what it hands over is pending then. -/
structure Recounts (s : Suite) (features : List Feature) (t : Trace) (rs : List ScenarioResult)
    (hooks : List HookResult) : Prop where
  unsettled : ∀ r ∈ t.records, r.feature? = none
  pending : Record.Pending t.records rs hooks
  accounts : s.Accounts features t

theorem Recounts.append (ht : s.Recounts features t rs hooks) (hu : s.Recounts features u rs' hooks') :
    s.Recounts features (t ++ u) (rs ++ rs') (hooks ++ hooks') where
  unsettled := by
    rw [Trace.records_append]
    exact List.forall_mem_append.2 ⟨ht.unsettled, hu.unsettled⟩
  pending := by
    rw [Trace.records_append]
    exact ht.pending.append hu.pending
  accounts := ht.accounts.append hu.accounts

/-- A part of a run that adds the results of some features. -/
structure Narrates (s : Suite) (features : List Feature) (t : Trace) (added : List FeatureResult) :
    Prop where
  chapters : Record.Chapters t.records added
  accounts : s.Accounts features t

theorem Narrates.append (ht : s.Narrates features t added) (hu : s.Narrates features u more) :
    s.Narrates features (t ++ u) (added ++ more) where
  chapters := by
    rw [Trace.records_append]
    exact ht.chapters.append hu.chapters
  accounts := ht.accounts.append hu.accounts

theorem Recounts.narrates (h : s.Recounts features t [] []) : s.Narrates features t [] :=
  ⟨Record.chapters_of_pending h.unsettled h.pending, h.accounts⟩

/-- The result of a feature closes its chapter. -/
theorem Recounts.close {g : FeatureResult} {b : Bool} (h : s.Recounts features t g.scenarios g.hooks) :
    s.Narrates features (t ++ [⟨.emit (.feature g), none, b⟩]) [g] where
  chapters := by
    rw [Trace.records_append]
    exact Record.chapters_concat h.unsettled h.pending
  accounts := h.accounts.append
    (accounts_of_untold (List.forall_mem_singleton.2 rfl) (List.forall_mem_singleton.2 rfl))

theorem ofSuite_of_hooks (h : ∀ k ∈ hooks, k.phase.ofSuite = true) :
    ∀ r ∈ hooks.map Record.hook, r.ofSuite = true := by
  rw [List.forall_mem_map]
  intro k hk
  have hphase := h k hk
  cases hp : k.phase <;> simp_all [HookPhase.ofSuite, Record.ofSuite]

theorem recounts_of_ofSuite (h : t.HandsOnly Record.ofSuite) : s.Recounts features t [] [] := by
  rw [Trace.handsOnly_iff] at h
  have hnone : ∀ {α : Type} (g : Record → Option α), (∀ r, r.ofSuite = true → g r = none) →
      ∀ r ∈ t.records, g r = none := fun g hg r hr => hg r (h r hr)
  have hkinds : ∀ r : Record, r.ofSuite = true → r.feature? = none ∧ r.scenario? = none ∧
      r.opening? = none ∧ r.hookOf? HookPhase.ofFeature = none := by
    intro r hr
    cases r with
    | hook k =>
      refine ⟨rfl, rfl, rfl, ?_⟩
      cases hp : k.phase <;> simp_all [Record.ofSuite, Record.hookOf?, Record.hook?, HookPhase.ofFeature]
    | suite _ => exact ⟨rfl, rfl, rfl, rfl⟩
    | _ => cases hr
  refine ⟨hnone _ fun r hr => (hkinds r hr).1, ⟨?_, ?_⟩, accounts_of_untold ?_ ?_⟩
  · exact List.filterMap_eq_nil_iff.2 (hnone _ fun r hr => (hkinds r hr).2.1)
  · exact List.filterMap_eq_nil_iff.2 (hnone _ fun r hr => (hkinds r hr).2.2.2)
  · exact hnone _ fun r hr => (hkinds r hr).2.1
  · exact hnone _ fun r hr => (hkinds r hr).2.2.1

theorem recounts_of_handed_nil (h : t.handed = []) : s.Recounts features t [] [] :=
  recounts_of_ofSuite (Trace.handsOnly_of_handed_nil h)

theorem recounts_of_offstage (h : t.offstage = true) : s.Recounts features t [] [] :=
  recounts_of_handed_nil (Trace.handed_of_offstage h)

section InOrder
variable (hsink : s.hasSink = true)
include hsink

/-- The results that hooks come to are those that are handed over. -/
theorem records_runHookList {scope : Scope} {hs : List Hook} (ht : t.tame = true)
    (h : Goes (s.runHookList scope hs) l t (.ok hooks) l') : t.records = hooks.map .hook := by
  induction hs generalizing l t hooks with
  | nil =>
    obtain ⟨rfl, hr, rfl⟩ := goes_pure_iff.1 h
    cases hr
    rfl
  | cons k hs ih =>
    rw [runHookList] at h
    obtain ⟨u, v, r, l₁, rfl, hfirst, hk⟩ := goes_bind_ok_iff.1 h
    rw [Trace.tame_append, Bool.and_eq_true] at ht
    obtain ⟨f, _, hrecords, hr⟩ := goes_runHook hfirst ht.1
    obtain rfl := hr r rfl
    split at hk
    · obtain ⟨rfl, hr, _⟩ := goes_pure_iff.1 hk
      cases hr
      rw [List.append_nil, hrecords hsink]
      rfl
    · obtain ⟨rest, rfl, hrest⟩ := goes_bind_pure_ok_iff.1 hk
      rw [Trace.records_append, hrecords hsink, ih ht.2 hrest]
      rfl

theorem recounts_runHooks {phase : HookPhase} {shown : Option FeatureResult}
    (hphase : phase.ofFeature = true) (ht : t.tame = true)
    (h : Goes (s.runHooks phase (.feature f shown)) l t (.ok hooks) l') :
    s.Recounts features t [] hooks := by
  rcases goes_settle_bind_iff.1 h with ⟨hs, hl, hgo⟩ | ⟨_, _, _, he, _⟩
  swap
  · cases he
  have hrecords := records_runHookList hsink ht hgo
  have hphases := phase_of_runHookList (fun k hk => Registry.phase_of_mem_lookup hl hk) hgo
  have hnone : ∀ {α : Type} (g : Record → Option α), (∀ k, g (.hook k) = none) →
      ∀ r ∈ t.records, g r = none := by
    intro α g hg r hr
    rw [hrecords] at hr
    obtain ⟨k, _, rfl⟩ := List.mem_map.1 hr
    exact hg k
  refine ⟨hnone _ fun _ => rfl, ⟨?_, ?_⟩, accounts_of_untold (hnone _ fun _ => rfl) (hnone _ fun _ => rfl)⟩
  · exact List.filterMap_eq_nil_iff.2 (hnone _ fun _ => rfl)
  · rw [hrecords]
    exact Record.filterMap_hookOf_map fun k hk => by rw [hphases k hk, hphase]

theorem recounts_notRun {p : Scenario × Nat} (hf : f ∈ features) (hp : p ∈ f.numbered)
    (h : s.executor.Hands (.scenario (notRun f p.1 p.2)) t none) :
    s.Recounts features t [notRun f p.1 p.2] [] := by
  obtain ⟨b, rfl⟩ := emitted_of_hands hsink h
  exact ⟨List.forall_mem_singleton.2 rfl, ⟨rfl, rfl⟩, accounts_notRun hf hp⟩

theorem recounts_run {p : Scenario × Nat} (hf : f ∈ features) (hp : p ∈ f.numbered)
    (h : (s.executor.run p.1 (some f) (some (f.idOf p.2 p.1))).Runs t (.ok c)) :
    s.Recounts features t [c] [] := by
  obtain ⟨own, hrecords, hown, _⟩ := Executor.records_of_run h hsink
  refine ⟨?_, ⟨Executor.scenarios_run h hsink, ?_⟩, accounts_run hf hp hsink h⟩
  · rw [hrecords]
    refine List.forall_mem_cons.2 ⟨rfl, List.forall_mem_append.2 ⟨fun r hr => ?_, ?_⟩⟩
    · exact Record.feature?_of_midway (hown r hr)
    · exact List.forall_mem_singleton.2 rfl
  · exact Executor.hookOf_of_run (fun k hk => by cases k <;> first | rfl | cases hk) h

theorem recounts_scenarioJob {p : Scenario × Nat} (hf : f ∈ features) (hp : p ∈ f.numbered)
    (h : (s.scenarioJob f p.1 p.2).Runs t (.ok c)) : s.Recounts features t [c] [] := by
  obtain ⟨x, b, u, rfl, hu⟩ := runs_scenarioJob h
  have hpoll : s.Recounts features [⟨.aborted, x, b⟩] [] [] := recounts_of_offstage rfl
  rcases hu with ⟨_, hh, hr⟩ | ⟨_, hrun⟩
  · obtain rfl := hr c rfl
    exact hpoll.append (recounts_notRun hsink hf hp hh)
  · exact hpoll.append (recounts_run hsink hf hp hrun)

theorem recounts_runInOrder {ps : List (Scenario × Nat)} (hf : f ∈ features)
    (hps : ∀ p ∈ ps, p ∈ f.numbered) (h : Goes (s.runInOrder f ps) l t (.ok rs) l') :
    s.Recounts features t rs [] := by
  induction ps generalizing l t rs with
  | nil =>
    obtain ⟨rfl, hrs, rfl⟩ := goes_pure_iff.1 h
    cases hrs
    exact recounts_of_offstage rfl
  | cons p ps ih =>
    obtain ⟨hp, hrest⟩ := List.forall_mem_cons.1 hps
    obtain ⟨u, v, r, l₁, rfl, hjob, hk⟩ := goes_bind_ok_iff.1 h
    obtain ⟨rest, rfl, hgo⟩ := goes_bind_pure_ok_iff.1 hk
    exact (recounts_scenarioJob hsink hf hp (goes_job_iff.1 hjob).2).append (ih hrest hgo)

theorem recounts_skipScenarios {ps : List (Scenario × Nat)} (hf : f ∈ features)
    (hps : ∀ p ∈ ps, p ∈ f.numbered) (h : Goes (s.skipScenarios f ps) l t (.ok rs) l') :
    s.Recounts features t rs [] := by
  induction ps generalizing l t rs with
  | nil =>
    obtain ⟨rfl, hrs, rfl⟩ := goes_pure_iff.1 h
    cases hrs
    exact recounts_of_offstage rfl
  | cons p ps ih =>
    obtain ⟨hp, hrest⟩ := List.forall_mem_cons.1 hps
    obtain ⟨u, v, _, l₁, rfl, hemit, hk⟩ := goes_bind_ok_iff.1 h
    obtain ⟨rest, rfl, hgo⟩ := goes_bind_pure_ok_iff.1 hk
    exact (recounts_notRun hsink hf hp (goes_emit hemit).2).append (ih hrest hgo)

theorem narrates_skipFeature {r : FeatureResult} (hf : f ∈ features)
    (h : Goes (s.skipFeature f) l t (.ok r) l') : s.Narrates features t [r] := by
  obtain ⟨rs, _, _, _, rfl, rfl, hskip, hemit⟩ := parts_of_skipFeature h
  obtain ⟨b, rfl⟩ := emitted_of_hands hsink (goes_emit hemit).2
  exact Recounts.close (g := ⟨f.name, .skipped, rs, [], f.path⟩)
    (recounts_skipScenarios hsink hf (fun _ => id) hskip)

variable (hw : s.workers ≤ 1)
include hw

theorem recounts_scenarios {ready : Bool} (hf : f ∈ features)
    (h : Goes (if ready then s.runScenarios f else s.skipScenarios f f.numbered) l t (.ok rs) l') :
    s.Recounts features t rs [] := by
  split at h
  · rw [runScenarios, if_neg (Nat.not_lt.2 hw)] at h
    exact recounts_runInOrder hsink hf (fun _ => id) h
  · exact recounts_skipScenarios hsink hf (fun _ => id) h

theorem narrates_runFeature {r : FeatureResult} (hf : f ∈ features) (ht : t.tame = true)
    (h : Goes (s.runFeature f) l t (.ok r) l') : s.Narrates features t [r] := by
  obtain ⟨hooks, rs, after, l₁, l₂, l₃, t₁, t₂, t₃, t₄, rfl, rfl, h₁, h₂, h₃, h₄⟩ :=
    parts_of_runFeature h
  simp only [Trace.tame_append, Bool.and_eq_true] at ht
  obtain ⟨b, rfl⟩ := emitted_of_hands hsink (goes_emit h₄).2
  have hbefore : s.Recounts features t₁ [] hooks := recounts_runHooks hsink rfl ht.1 h₁
  have hscenarios := recounts_scenarios hsink hw hf h₂
  have hafter : s.Recounts features t₃ [] after := recounts_runHooks hsink rfl ht.2.2.1 h₃
  have hall := hbefore.append (hscenarios.append hafter)
  rw [List.nil_append, List.append_nil, List.nil_append] at hall
  have hclosed := Recounts.close (g := featureResult f rs (hooks ++ after)) (b := b) hall
  simpa using hclosed

theorem narrates_runFeatures {ready : Bool} {fs : List Feature} (hfs : ∀ f ∈ fs, f ∈ features)
    (ht : t.tame = true) (h : Goes (s.runFeatures ready fs) l t (.ok ()) l') :
    ∃ added, l' = l ++ added ∧ s.Narrates features t added := by
  induction fs generalizing l t with
  | nil =>
    obtain ⟨rfl, _, rfl⟩ := goes_pure_iff.1 h
    exact ⟨[], (List.append_nil _).symm, (recounts_of_offstage rfl).narrates⟩
  | cons f fs ih =>
    obtain ⟨hf, hrest⟩ := List.forall_mem_cons.1 hfs
    obtain ⟨skipped, u, _, rfl, hoff, ⟨r, w, z, rfl, hturn, hloop⟩ | ⟨_, he, _⟩⟩ :=
      goes_runFeatures_cons h
    swap
    · cases he
    simp only [Trace.tame_append, Bool.and_eq_true] at ht
    obtain ⟨added, rfl, hadded⟩ := ih hrest ht.2.2 hloop
    have hpoll : s.Narrates features u [] := (recounts_of_offstage hoff).narrates
    have hone : s.Narrates features w [r] := by
      split at hturn
      · exact narrates_skipFeature hsink hf hturn
      · exact narrates_runFeature hsink hw hf ht.2.1 hturn
    exact ⟨r :: added, by simp, hpoll.append (hone.append hadded)⟩

end InOrder

/-- In the loop over the features no hook of the suite has a result. -/
theorem suiteless_runFeatures {ready : Bool} {o : Except Fault Unit}
    (h : Goes (s.runFeatures ready features) l t o l') :
    t.records.filterMap (Record.hookOf? HookPhase.ofSuite) = [] := by
  have A : SuiteActs s features (Unseen (Moment.hookOf? HookPhase.ofSuite))
      (fun r => r.hookOf? HookPhase.ofSuite = none) fun _ => True := by
    refine suiteActs_unseen (Executor.blind_hookOf _) (fun _ _ _ _ _ => rfl) (fun r f b hr => ?_)
      (fun r f b hr => hr) (fun _ _ _ _ _ => rfl) (fun r hr => ?_) fun _ _ => trivial
    · cases hp : r.phase <;> simp_all [Moment.hookOf?, Moment.handed?, Record.hookOf?, Record.hook?,
        HookPhase.ofSuite, HookPhase.instanceBound]
    · cases r with
      | hook k => cases hp : k.phase <;> simp_all [ofLoop, Record.hookOf?, Record.hook?, HookPhase.ofSuite]
      | _ => rfl
  rw [Trace.filterMap_hookOf]
  exact A.runFeatures (fun _ => id) h

/-- How a run that comes to its result is put together where every record is taken: the loop over the features
comes to its end, between the hooks of the suite. -/
theorem parts_of_taken {r : SuiteResult} (h : Goes (s.runAll features) [] t (.ok r) l')
    (ho : s.Orderly features) (hsink : s.hasSink = true) (ht : t.tame = true) (hk : t.taken = true) :
    ∃ (t₁ t₂ t₃ : Trace) (ready : Bool) (before after : List HookResult), t = t₁ ++ (t₂ ++ t₃) ∧
      t₁.records = before.map .hook ∧ Goes (s.runFeatures ready features) [] t₂ (.ok ()) r.features ∧
      t₃.records = after.map .hook ++ [.suite r] ∧ r.hooks = before ++ after ∧
      ∀ k ∈ before ++ after, k.phase.ofSuite = true := by
  obtain ⟨b, t₀, _, rfl, hoff, t₁, rest, o₁, rfl, h₁, hrest⟩ :=
    goes_runAll_parts h (Trace.logged_of_tame ht)
  cases o₁ with
  | error e => cases hrest.2
  | ok before =>
    obtain ⟨t₂, t₃, t₄, t₅, x, b', o₂, o₃, l₂, l₃, o₄, rfl, hloop, hrecover, h₄, hend⟩ := hrest
    cases o₄ with
    | error e => cases hend.2
    | ok after =>
      rcases hend with ⟨_, _, _, he⟩ | ⟨rfl, y, b'', t₆, rfl, hfinish⟩
      · cases he
      obtain ⟨rfl, _, hlast⟩ := goes_finish hfinish
      rw [if_pos hsink] at hlast
      have hk : Trace.taken (t₀ ++ (t₁ ++ (t₂ ++ _))) = true := hk
      simp only [Trace.taken_append, Bool.and_eq_true] at hk
      obtain ⟨_, _, hk₂, _⟩ := hk
      simp only [Trace.tame_cons, Trace.tame_append, Bool.and_eq_true] at ht
      obtain ⟨_, _, ht₁, ht₂, _, _, ht₄, _⟩ := ht
      have A : SuiteActs s features (s.Raised features) _ _ := suiteActs_raised
      -- Only a record that the sink refuses ends the loop early.
      have hnone := none_of_raised (A.runFeatures (fun _ => id) hloop) ho ht₂ hk₂
      obtain ⟨_, ho₃, ⟨rfl, rfl, rfl, _⟩ | ⟨e, rfl, _⟩⟩ := goes_recover hrecover
      swap
      · cases hnone
      cases ho₃
      refine ⟨⟨.resetAbort, (), b⟩ :: (t₀ ++ t₁), t₂,
        ⟨.aborted, x, b'⟩ :: (t₄ ++ ⟨.aborted, y, b''⟩ :: t₆), allWell before, before, after, by simp,
        ?_, hloop, ?_, rfl, List.forall_mem_append.2 ⟨fun k hm => ?_, fun k hm => ?_⟩⟩
      · have hfirst := records_runHookList hsink ht₁ h₁
        have hsilent : Trace.records (⟨.resetAbort, (), b⟩ :: (t₀ ++ t₁)) = Trace.records (t₀ ++ t₁) := rfl
        rw [hsilent, Trace.records_append, Trace.records_of_offstage hoff, hfirst, List.nil_append]
      · have hclosing := records_runHookList hsink ht₄ h₄
        have hsilent : Trace.records (⟨.aborted, x, b'⟩ :: (t₄ ++ ⟨.aborted, y, b''⟩ :: t₆)) =
            Trace.records (t₄ ++ ([⟨.aborted, y, b''⟩] ++ t₆)) := rfl
        rw [hsilent, Trace.records_append, Trace.records_append, hclosing, hlast]
        rfl
      · rw [phase_of_runHookList phase_of_mem_hooksOf h₁ k hm]
        rfl
      · rw [phase_of_runHookList phase_of_mem_hooksOf h₄ k hm]
        rfl

/-- What the records of a run tell: its result comes last, with the features whose chapters they are and
the hooks of the suite that were handed over, and every scenario is accounted for. -/
structure Retold (s : Suite) (features : List Feature) (t : Trace) (r : SuiteResult) : Prop where
  last : t.records.getLast? = some (.suite r)
  chapters : Record.Chapters t.records r.features
  accounts : s.Accounts features t
  hooks : t.records.filterMap (Record.hookOf? HookPhase.ofSuite) = r.hooks

/-- A run in order whose sink takes every record has a result, and its records tell it again. -/
theorem retold_of_run {o : Except Fault SuiteResult} (h : (s.run features).Shows t o)
    (ho : s.Orderly features) (hsink : s.hasSink = true) (hw : s.workers ≤ 1) (ht : t.tame = true)
    (hk : t.taken = true) (hf : t.flushed = true) : ∃ r, o = .ok r ∧ s.Retold features t r := by
  obtain ⟨r, rfl⟩ := exists_result h ho ht hf (Trace.loopInterrupted_of_taken hk)
  refine ⟨r, rfl, ?_⟩
  obtain ⟨l', hrun⟩ := shows_run_iff.1 h
  obtain ⟨t₁, t₂, t₃, ready, before, after, rfl, h₁, hloop, h₃, hhooks, hsuite⟩ :=
    parts_of_taken hrun ho hsink ht hk
  simp only [Trace.tame_append, Bool.and_eq_true] at ht
  obtain ⟨hbefore, hafter⟩ := List.forall_mem_append.1 hsuite
  obtain ⟨added, hadded, hloopTold⟩ := narrates_runFeatures hsink hw (fun _ => id) ht.2.1 hloop
  obtain rfl : added = r.features := hadded.symm
  have hopening : s.Narrates features t₁ [] := by
    refine (recounts_of_ofSuite (Trace.handsOnly_iff.2 ?_)).narrates
    rw [h₁]
    exact ofSuite_of_hooks hbefore
  have hclosing : s.Narrates features t₃ [] := by
    refine (recounts_of_ofSuite (Trace.handsOnly_iff.2 ?_)).narrates
    rw [h₃]
    exact List.forall_mem_append.2 ⟨ofSuite_of_hooks hafter, List.forall_mem_singleton.2 rfl⟩
  have hall := hopening.append (hloopTold.append hclosing)
  rw [List.nil_append, List.append_nil] at hall
  refine ⟨?_, hall.chapters, hall.accounts, ?_⟩
  · rw [Trace.records_append, Trace.records_append, h₃, ← List.append_assoc, ← List.append_assoc,
      List.getLast?_concat]
  · have hresult : [Record.suite r].filterMap (Record.hookOf? HookPhase.ofSuite) = [] := rfl
    rw [Trace.records_append, Trace.records_append, List.filterMap_append, List.filterMap_append,
      suiteless_runFeatures hloop, h₁, h₃, List.filterMap_append, Record.filterMap_hookOf_map hbefore,
      Record.filterMap_hookOf_map hafter, hresult, List.nil_append, List.append_nil, hhooks]

/-- A hook before the first scenario interrupts the run, so that the feature after it is skipped. -/
theorem retold_of_run_sample :
    let s := Sample.suite [Sample.hook .beforeFeature 1 "open", Sample.hook .beforeScenario 2 "ring",
      Sample.hook .afterSuite 3 "close"] 1 false
    let w := Sample.surroundings (fun _ => none)
      fun n => if n = 2 then some (.ofKind "KeyboardInterrupt" "") else none
    let features := [Sample.feature "bookings", Sample.feature "payments"]
    let t := w.showing (s.run features) ⟨0, false⟩
    ∃ r, w.comesTo (s.run features) ⟨0, false⟩ = some (.ok r) ∧ s.Retold features t r := by
  intro s w features t
  have hw : w.Tame := by
    refine Sample.tame fun n f hf => ?_
    split at hf
    · cases hf
      decide
    · cases hf
  obtain ⟨o, ho, hshows⟩ := w.exists_shows_showing (p := s.run features) (s := ⟨0, false⟩) (by decide +kernel)
  obtain ⟨r, rfl, hretold⟩ := retold_of_run hshows (Sample.suite_orderly (by decide)) rfl (Nat.le_refl 1)
    (Surroundings.tame_showing hw _ _) (w.taken_showing (fun _ => rfl) _ _) (w.flushed_showing _ _)
  exact ⟨r, ho, hretold⟩

end Suite
end Rehearsal
