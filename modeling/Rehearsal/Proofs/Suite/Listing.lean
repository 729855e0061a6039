import Rehearsal.Proofs.Suite.Parts

/-! What the result of a suite lists. Whether a feature ran, was cut short or was not started, it has
one result in its place, which lists its scenarios and their steps in order. Nothing is asked of the
surroundings here: the sink may refuse what it likes, as long as the run comes to a result. -/

namespace Rehearsal
set_option autoImplicit false

/-- A scenario as its result lists it: its name, its id, and each step by index, text and line. -/
def ScenarioResult.outline (r : ScenarioResult) : String × String × List (Int × String × Value) :=
  (r.name, r.scenarioId, r.steps.map StepResult.place)

def FeatureResult.outline (r : FeatureResult) :
    String × Option String × List (String × String × List (Int × String × Value)) :=
  (r.name, r.path, r.scenarios.map ScenarioResult.outline)

/-- What the result of a feature is to list. -/
def Feature.outline (f : Feature) :
    String × Option String × List (String × String × List (Int × String × Value)) :=
  (f.name, f.path, f.numbered.map fun p => (p.1.name, f.idOf p.2 p.1, Step.places 0 p.1.steps))

theorem Feature.isEmpty_idOf (f : Feature) (index : Int) (c : Scenario) :
    (f.idOf index c).isEmpty = false := by
  rw [idOf, Bool.eq_false_iff, Ne, String.isEmpty_iff]
  intro h
  have hlen := congrArg String.length h
  simp [String.length_append] at hlen

/-- A scenario of a feature keeps the id that it has there. -/
theorem Case.id_named (c : Scenario) (f : Feature) (index : Int) :
    (named c (some f) (some (f.idOf index c))).id = f.idOf index c := by
  simp [named, Option.filter, Feature.isEmpty_idOf]

theorem Step.places_eq_map (index : Nat) (id : String) (ss : List Step) :
    ((ss.zipIdx index).map fun p => StepResult.skipped id p.2 p.1).map StepResult.place =
      places index ss := by
  induction ss generalizing index with
  | nil => rfl
  | cons s ss ih =>
    rw [List.zipIdx_cons, List.map_cons, List.map_cons, ih]
    rfl

namespace Suite

variable {s : Suite} {l l' : List FeatureResult} {t u : Trace} {features : List Feature} {f : Feature}
  {p : Scenario × Nat}

theorem outline_notRun (f : Feature) (c : Scenario) (index : Nat) :
    (notRun f c index).outline = (c.name, f.idOf index c, Step.places 0 c.steps) := by
  rw [ScenarioResult.outline, ← Step.places_eq_map 0 (f.idOf index c)]
  rfl

/-- Where the result of a scenario comes from: it was not started, or a trace shows its run. -/
def Arises (s : Suite) (t : Trace) (f : Feature) (p : Scenario × Nat) (r : ScenarioResult) : Prop :=
  r = notRun f p.1 p.2 ∨ ∃ v : Trace, v.Sublist t ∧
    (s.executor.run p.1 (some f) (some (f.idOf p.2 p.1))).Runs v (.ok r)

/-- The result of a feature has one of each scenario, and the status that they and its hooks make, or
tells that nothing was started. -/
structure Reports (s : Suite) (t : Trace) (f : Feature) (r : FeatureResult) : Prop where
  name : r.name = f.name
  path : r.path = f.path
  scenarios : List.Forall₂ (s.Arises t f) f.numbered r.scenarios
  status : r.status = featureStatus r.scenarios r.hooks ∨
    r.status = .skipped ∧ r.hooks = [] ∧ r.scenarios = f.numbered.map fun p => notRun f p.1 p.2

/-- Results for a first part of some features, each in its place. -/
def Covers (s : Suite) (t : Trace) (fs : List Feature) (rs : List FeatureResult) : Prop :=
  List.Forall₂ (s.Reports t) (fs.take rs.length) rs

theorem Arises.mono {r : ScenarioResult} (h : s.Arises u f p r) (hu : u.Sublist t) :
    s.Arises t f p r := by
  refine h.imp_right ?_
  rintro ⟨v, hv, hrun⟩
  exact ⟨v, hv.trans hu, hrun⟩

theorem Arises.outline {r : ScenarioResult} (h : s.Arises t f p r) :
    r.outline = (p.1.name, f.idOf p.2 p.1, Step.places 0 p.1.steps) := by
  rcases h with rfl | ⟨v, _, hrun⟩
  · exact outline_notRun f p.1 p.2
  · obtain ⟨hname, hid, hplaces⟩ := Executor.places_run hrun
    rw [ScenarioResult.outline, hname, hid, Case.id_named, hplaces]

theorem arises_notRun : s.Arises t f p (notRun f p.1 p.2) := .inl rfl

theorem arises_map_notRun (ps : List (Scenario × Nat)) :
    List.Forall₂ (s.Arises t f) ps (ps.map fun p => notRun f p.1 p.2) :=
  List.forall₂_map_right_iff.2 (List.forall₂_same.2 fun _ _ => arises_notRun)

theorem arises_scenarioJob {r : ScenarioResult} (h : (s.scenarioJob f p.1 p.2).Runs t (.ok r)) :
    s.Arises t f p r := by
  obtain ⟨x, b, u, rfl, ⟨_, _, hr⟩ | ⟨_, hrun⟩⟩ := runs_scenarioJob h
  · exact .inl (hr r rfl)
  · exact .inr ⟨u, List.sublist_cons_self _ u, hrun⟩

namespace Reports
variable {r : FeatureResult}

theorem mono (h : s.Reports u f r) (hu : u.Sublist t) : s.Reports t f r :=
  ⟨h.name, h.path, h.scenarios.imp fun _ _ ha => ha.mono hu, h.status⟩

theorem outline (h : s.Reports t f r) : r.outline = f.outline := by
  have hscenarios : r.scenarios.map ScenarioResult.outline =
      f.numbered.map fun p => (p.1.name, f.idOf p.2 p.1, Step.places 0 p.1.steps) := by
    rw [← List.forall₂_eq_eq_eq, List.forall₂_map_left_iff, List.forall₂_map_right_iff]
    exact (h.scenarios.imp fun _ _ ha => ha.outline).flip
  rw [FeatureResult.outline, Feature.outline, h.name, h.path, hscenarios]

end Reports

theorem outline_of_reports {l : List FeatureResult} (h : List.Forall₂ (s.Reports t) features l) :
    l.map FeatureResult.outline = features.map Feature.outline := by
  rw [← List.forall₂_eq_eq_eq, List.forall₂_map_left_iff, List.forall₂_map_right_iff]
  exact h.flip.imp fun _ _ hr => hr.outline

namespace Covers
variable {fs : List Feature} {rs more : List FeatureResult}

theorem nil : s.Covers t fs [] := List.Forall₂.nil

theorem cons {r : FeatureResult} (hr : s.Reports t f r) (h : s.Covers t fs rs) :
    s.Covers t (f :: fs) (r :: rs) := List.Forall₂.cons hr h

theorem mono (h : s.Covers u fs rs) (hu : u.Sublist t) : s.Covers t fs rs :=
  List.Forall₂.imp (fun _ _ hr => Reports.mono hr hu) h

theorem append (h : s.Covers t fs rs) (hm : s.Covers t (fs.drop rs.length) more) :
    s.Covers t fs (rs ++ more) := by
  rw [Covers, List.length_append, List.take_add]
  exact List.rel_append h hm

theorem length_le (h : s.Covers t fs rs) : rs.length ≤ fs.length := by
  have hlen := List.Forall₂.length_eq h
  rw [List.length_take] at hlen
  omega

theorem complete (h : s.Covers t fs rs) (hlen : rs.length = fs.length) :
    List.Forall₂ (s.Reports t) fs rs := by
  rwa [Covers, hlen, List.take_length] at h

end Covers

theorem goes_skipScenarios {ps : List (Scenario × Nat)} {rs : List ScenarioResult}
    (h : Goes (s.skipScenarios f ps) l t (.ok rs) l') : rs = ps.map fun p => notRun f p.1 p.2 := by
  induction ps generalizing l t rs with
  | nil =>
    obtain ⟨_, hr, _⟩ := goes_pure_iff.1 h
    exact Except.ok.inj hr
  | cons p ps ih =>
    obtain ⟨u, v, _, l₁, rfl, _, hk⟩ := goes_bind_ok_iff.1 h
    obtain ⟨rest, rfl, hrest⟩ := goes_bind_pure_ok_iff.1 hk
    rw [ih hrest]
    rfl

theorem arises_runInOrder {ps : List (Scenario × Nat)} {rs : List ScenarioResult}
    (h : Goes (s.runInOrder f ps) l t (.ok rs) l') : List.Forall₂ (s.Arises t f) ps rs := by
  induction ps generalizing l t rs with
  | nil =>
    obtain ⟨_, hr, _⟩ := goes_pure_iff.1 h
    cases hr
    exact .nil
  | cons p ps ih =>
    obtain ⟨u, v, r, l₁, rfl, hjob, hk⟩ := goes_bind_ok_iff.1 h
    obtain ⟨rest, rfl, hrest⟩ := goes_bind_pure_ok_iff.1 hk
    have hfirst := arises_scenarioJob (goes_job_iff.1 hjob).2
    exact .cons (hfirst.mono (List.sublist_append_left u v))
      ((ih hrest).imp fun _ _ ha => ha.mono (List.sublist_append_right u v))

theorem arises_runInPool {rs : List ScenarioResult}
    (h : Goes (s.runInPool f) l t (.ok rs) l') : List.Forall₂ (s.Arises t f) f.numbered rs := by
  obtain ⟨_, _, ends, hover, hends⟩ := goes_runInPool h
  obtain rfl : ends = rs.map .ok := by
    rw [← List.forall₂_eq_eq_eq, List.forall₂_map_right_iff]
    exact mapM_eq_ok_iff.1 hends.symm
  have hall := hover.forall₂
  rw [jobs, List.forall₂_map_left_iff, List.forall₂_map_right_iff] at hall
  refine hall.imp ?_
  rintro p r ⟨u, hu, hrun⟩
  exact (arises_scenarioJob hrun).mono hu

theorem arises_runScenarios {rs : List ScenarioResult}
    (h : Goes (s.runScenarios f) l t (.ok rs) l') : List.Forall₂ (s.Arises t f) f.numbered rs := by
  rw [runScenarios] at h
  split at h
  · exact arises_runInPool h
  · exact arises_runInOrder h

theorem reports_runFeature {r : FeatureResult} (h : Goes (s.runFeature f) l t (.ok r) l') :
    s.Reports t f r := by
  obtain ⟨_, rs, _, _, _, _, u, w, _, _, rfl, rfl, _, hrun, _, _⟩ := parts_of_runFeature h
  refine ⟨rfl, rfl, ?_, .inl rfl⟩
  suffices hw : List.Forall₂ (s.Arises w f) f.numbered rs by
    refine hw.imp fun _ _ ha => ha.mono ?_
    exact (List.sublist_append_left w _).trans (List.sublist_append_right u _)
  split at hrun
  · exact arises_runScenarios hrun
  · rw [goes_skipScenarios hrun]
    exact arises_map_notRun _

theorem reports_skipFeature {r : FeatureResult} (h : Goes (s.skipFeature f) l t (.ok r) l') :
    s.Reports t f r := by
  obtain ⟨_, _, _, _, rfl, rfl, hskip, _⟩ := parts_of_skipFeature h
  obtain rfl := goes_skipScenarios hskip
  exact ⟨rfl, rfl, arises_map_notRun _, .inr ⟨rfl, rfl, rfl⟩⟩

/-- The loop over the features keeps results of a first part of them, and of all of them if it is not
cut short. -/
theorem covers_runFeatures {ready : Bool} {fs : List Feature} {o : Except Fault Unit}
    (h : Goes (s.runFeatures ready fs) l t o l') :
    ∃ added, l' = l ++ added ∧ s.Covers t fs added ∧ (o = .ok () → added.length = fs.length) := by
  induction fs generalizing l t with
  | nil =>
    obtain ⟨rfl, rfl, rfl⟩ := goes_pure_iff.1 h
    exact ⟨[], (List.append_nil _).symm, .nil, fun _ => rfl⟩
  | cons f fs ih =>
    obtain ⟨skipped, u, _, rfl, _, ⟨r, w, z, rfl, hr, hloop⟩ | ⟨e, rfl, rfl, _⟩⟩ :=
      goes_runFeatures_cons h
    swap
    · -- A feature that is cut short leaves no result.
      exact ⟨[], (List.append_nil _).symm, .nil, nofun⟩
    obtain ⟨added, rfl, hadded, hlen⟩ := ih hloop
    have hreport : s.Reports w f r := by
      split at hr
      · exact reports_skipFeature hr
      · exact reports_runFeature hr
    refine ⟨r :: added, by simp, .cons (hreport.mono ?_) (hadded.mono ?_), fun ho => ?_⟩
    · exact (List.sublist_append_left w z).trans (List.sublist_append_right u _)
    · exact (List.sublist_append_right w z).trans (List.sublist_append_right u _)
    · rw [List.length_cons, hlen ho, List.length_cons]

/-- What the features that have no result are skipped by completes the list. -/
theorem reports_salvage (hl : s.Covers u features l)
    (h : Goes (s.salvage features) l t (.ok ()) l') :
    List.Forall₂ (s.Reports (u ++ t)) features l' := by
  obtain ⟨b, w, z, rfl, _, hskip⟩ := goes_salvage h
  obtain ⟨added, rfl, hadded, hlen⟩ := covers_runFeatures hskip
  have hle := hl.length_le
  refine Covers.complete ((hl.mono ?_).append (hadded.mono ?_)) ?_
  · exact List.sublist_append_left u _
  · exact (((List.sublist_append_right w z).cons _).trans (List.sublist_append_right u _))
  · rw [List.length_append, hlen rfl, List.length_drop]
    omega

/-- Every feature has its result in its place, in each run that comes to a result. -/
theorem reports_loop {ready : Bool} {o : Except Fault Unit} {l₁ l₂ : List FeatureResult}
    (hloop : Goes (s.runFeatures ready features) [] u o l₁)
    (hrecover : Goes (s.recover features o) l₁ t (.ok (.ok ())) l₂) :
    List.Forall₂ (s.Reports (u ++ t)) features l₂ := by
  obtain ⟨added, rfl, hadded, hlen⟩ := covers_runFeatures hloop
  obtain ⟨_, hr, ⟨rfl, rfl, rfl, _⟩ | ⟨f, _, _, hsalvage⟩⟩ := goes_recover hrecover
  · rw [List.append_nil]
    exact hadded.complete (hlen (Except.ok.inj hr).symm)
  · cases hr
    exact reports_salvage hadded hsalvage

/-- How a run that comes to a result is put together: the signal is reset, and asked when the result
is made. Nothing is called from then on, and the result of the suite is the only record. -/
theorem goes_runAll {r : SuiteResult} (h : Goes (s.runAll features) [] t (.ok r) l') :
    ∃ (w v : Trace) (b x b' : Bool) (l : List FeatureResult) (hooks : List HookResult),
      t = ⟨.resetAbort, (), b⟩ :: (w ++ ⟨.aborted, x, b'⟩ :: v) ∧ w.resets = false ∧
      List.Forall₂ (s.Reports w) features l ∧ r = s.made l hooks x ∧
      v.calls = [] ∧ v.records = if s.hasSink then [.suite r] else [] := by
  rw [runAll_eq] at h
  obtain ⟨⟨⟩, b, u₀, rfl, h₀⟩ := goes_perform_bind_iff.1 h
  obtain ⟨v₁, u₁, _, k₁, rfl, hstart, h₁⟩ := goes_bind_ok_iff.1 h₀
  obtain ⟨v₂, u₂, hooks, k₂, rfl, hbefore, h₂⟩ := goes_bind_ok_iff.1 h₁
  obtain ⟨t₁, u₃, o, l₁, rfl, hloop, h₃⟩ := goes_observe_bind_iff.1 h₂
  obtain ⟨t₂, u₄, outcome, l₂, rfl, hrecover, h₄⟩ := goes_bind_ok_iff.1 h₃
  obtain ⟨v₅, u₅, shown, k₅, rfl, hshown, h₅⟩ := goes_bind_ok_iff.1 h₄
  obtain ⟨v₆, u₆, after, k₆, rfl, hafter, h₆⟩ := goes_bind_ok_iff.1 h₅
  rcases goes_settle_bind_iff.1 h₆ with ⟨_, rfl, h₇⟩ | ⟨_, _, _, he, _⟩
  swap
  · cases he
  obtain ⟨v₇, v, result, k₇, rfl, hresult, hfinish⟩ := goes_bind_ok_iff.1 h₇
  obtain ⟨hk₇, x, b', rfl, hmade⟩ := goes_result_iff.1 hresult
  cases hmade
  obtain ⟨rfl, hcalls, hrecords⟩ := goes_finish hfinish
  obtain ⟨hk₅, y, b'', rfl, _⟩ := goes_result_iff.1 hshown
  -- The results that are kept change in the loop and in what it is recovered by only.
  have A : LoopActs s features Still _ _ := loopActs_still
  obtain rfl : k₁ = [] := (goes_log hstart).1
  obtain rfl : k₂ = [] := A.suiteHooks trivial (fun _ _ => trivial) hbefore
  obtain rfl : k₆ = k₅ := A.suiteHooks trivial (fun _ _ => trivial) hafter
  subst hk₅ hk₇
  have B : SuiteActs s features (Unseen Moment.reset?) _ _ := suiteActs_unreset
  refine ⟨v₁ ++ (v₂ ++ (t₁ ++ (t₂ ++ ([⟨.aborted, y, b''⟩] ++ v₆)))), v, b, x, b', _, hooks ++ after,
    by simp, ?_, ?_, rfl, hcalls, hrecords⟩
  · simp only [Trace.resets_append, Bool.or_eq_false_iff, Trace.resets_eq_false_iff]
    exact ⟨B.log hstart, B.suiteHooks trivial (fun _ _ => trivial) hbefore,
      B.runFeatures (fun _ => id) hloop, B.recover hrecover, rfl,
      B.suiteHooks trivial (fun _ _ => trivial) hafter⟩
  · refine (reports_loop hloop hrecover).imp fun _ _ hr => hr.mono ?_
    rw [← List.append_assoc t₁]
    refine List.Sublist.trans ?_ (List.sublist_append_right v₁ _)
    refine List.Sublist.trans ?_ (List.sublist_append_right v₂ _)
    exact List.sublist_append_left (t₁ ++ t₂) _

end Suite
end Rehearsal
