import Rehearsal.Proofs.Suite.Barrier
import Rehearsal.Proofs.Suite.Closing

/-! The thread that leads a suite keeps pace, so that cleaning up waits for what it cleans up after. It
collects the ends of all jobs before the hooks after a feature; where it stops at a fault, it asks for nothing
more until the pool is shut down. -/

namespace Rehearsal
set_option autoImplicit false

theorem Program.inThreads_bind {α β : Type} (turn : Nat) (p : SuiteRoutine α)
    (f : α → SuiteRoutine β) :
    (p >>= f).inThreads turn = p.inThreads turn >>= fun a => (f a).inThreads turn := by
  induction p with
  | done a => rfl
  | ask r next ih =>
    cases r with
    | single r => exact congrArg (Program.ask _) (funext ih)
    | pool jobs =>
      rw [ask_bind, inThreads, inThreads, Program.bind_assoc]
      simp only [Program.bind_assoc]
      exact congrArg (fun rest => Threaded.submitAll turn 0 jobs >>= fun _ =>
        Threaded.collect turn 0 jobs.length >>= rest) (funext ih)
    | stall => exact congrArg (Program.ask _) (funext ih)

namespace Threads
variable {s : Suite} {features : List Feature} {α β : Type} {g : Progress} {k : Nat}
  {Q : Progress → α → Prop}

theorem Abides.bind {Q' : Progress → β → Prop} {p : Threaded α} {f : α → Threaded β}
    (hp : Abides s features Q g p) (hf : ∀ g' a, Q g' a → Abides s features Q' g' (f a)) :
    Abides s features Q' g (p >>= f) := by
  induction hp with
  | done ha => exact hf _ _ ha
  | turn hall hwhole hlt _ ih => exact .turn hall hwhole hlt ih
  | single hadmits _ ih => exact .single hadmits ih
  | submit hle hfits _ ih => exact .submit hle hfits ih
  | await _ ih => exact .await ih
  | shutDown _ ih => exact .shutDown ih
  | stall => exact .stall

theorem Abides.imp {Q' : Progress → α → Prop} {p : Threaded α} (hp : Abides s features Q g p)
    (hQ : ∀ g' a, Q g' a → Q' g' a) : Abides s features Q' g p := by
  have h := hp.bind (f := .done) fun g' a ha => .done (hQ g' a ha)
  rwa [Program.bind_done] at h

/-- What may be asked for in a turn, without a pool. -/
def within (features : List Feature) (k : Nat) (g : Progress) : Terms SuiteRequest.Answer Fault :=
  .asking fun
    | .single r => g.Admits features k r
    | _ => False

theorem admits_of_free {r : Request} (hfits : r.Fits features k) (hfree : ∀ t, ¬ r.waitsFor k t) :
    g.Admits features k r :=
  ⟨hfits, fun t _ hw => absurd hw (hfree t)⟩

theorem framing_within {C : Scope → Prop}
    (hC : ∀ c scope, C scope → g.Admits features k (.call c [.scope scope])) :
    SuiteRequest.Framing C (within features k g) where
  emit _ := admits_of_free trivial fun _ => id
  log _ := admits_of_free trivial fun _ => id
  call := hC
  aborted := admits_of_free trivial fun _ => id
  interrupted _ _ _ _ _ _ := admits_of_free trivial fun _ => id
  refused _ _ _ := trivial
  unlogged _ _ _ := trivial
  exited _ _ _ _ _ := trivial

theorem framing_unhooked : SuiteRequest.Framing (fun _ => False) (within features k g) :=
  framing_within fun _ _ => False.elim

theorem abides_of_asks {P : α → Prop} {p : SuiteRoutine α}
    (hp : Program.Asks (within features k g).asks (fun _ => False) (within features k g).answers P
      p) : Abides s features (fun g' _ => g' = g) g (p.inThreads k) := by
  induction hp with
  | done _ => exact .done rfl
  | stop hr => exact hr.elim
  | @ask r next hr _ ih =>
    cases r with
    | single r => exact .single hr fun x => ih x trivial
    | pool jobs => exact hr.elim
    | stall => exact hr.elim

/-- What an action of a suite does in a turn keeps pace from some progress on. -/
def Keeps (s : Suite) (features : List Feature) (k : Nat) (g : Progress)
    (Q : Progress → Except Fault α → Prop) (x : Suite.Action α) : Prop :=
  ∀ l, Abides s features (fun g' r => Q g' r.1) g ((x.run.run l).inThreads k)

section Keeps
variable {P : Progress → Except Fault α → Prop} {P' : Progress → Except Fault β → Prop}

theorem keeps_bind {x : Suite.Action α} {f : α → Suite.Action β} (hx : Keeps s features k g P x)
    (hok : ∀ g' a, P g' (.ok a) → Keeps s features k g' P' (f a))
    (herror : ∀ g' e, P g' (.error e) → P' g' (.error e)) :
    Keeps s features k g P' (x >>= f) := by
  intro l
  rw [Suite.run_bind, Program.inThreads_bind]
  refine (hx l).bind fun g' r hr => ?_
  obtain ⟨o, l'⟩ := r
  cases o with
  | ok a => exact hok g' a hr l'
  | error e => exact .done (herror g' e hr)

theorem keeps_of_confined {x : Suite.Action α} (hx : Confined (within features k g) x) :
    Keeps s features k g (fun g' _ => g' = g) x :=
  fun l => abides_of_asks (hx l)

theorem Keeps.imp {x : Suite.Action α} {P' : Progress → Except Fault α → Prop}
    (hx : Keeps s features k g P x) (hP : ∀ g' o, P g' o → P' g' o) : Keeps s features k g P' x :=
  fun l => (hx l).imp fun g' r hr => hP g' r.1 hr

theorem Keeps.turn {x : Suite.Action α} {m : Nat} (hall : g.collected = g.submitted)
    (hwhole : g.Whole features) (hlt : g.turn < m)
    (hx : Keeps s features k ⟨m, 0, 0⟩ P x) : Keeps s features k g P x :=
  fun l => .turn hall hwhole hlt (hx l)

end Keeps

section Pool
variable {f : Feature}

theorem abides_submitAll {jobs : List Job} {n : Nat}
    (hjobs : ∀ i j, jobs[i]? = some j → (Event.submitted ⟨k, n + i⟩ j).Fits s features) :
    Abides s features (fun g _ => g = ⟨k, n + jobs.length, 0⟩) ⟨k, n, 0⟩
      (Threaded.submitAll k n jobs) := by
  induction jobs generalizing n with
  | nil => exact .done rfl
  | cons j jobs ih =>
    refine .submit (Nat.zero_le n) (hjobs 0 j rfl) ?_
    rw [List.length_cons, Nat.add_comm jobs.length, ← Nat.add_assoc]
    refine ih fun i j' hj => ?_
    rw [Nat.add_assoc, Nat.add_comm 1]
    exact hjobs (i + 1) j' hj

/-- The ends of all jobs are seen, unless one of them is a fault. -/
theorem abides_collect {n count : Nat} :
    Abides s features
      (fun g ends => g.turn = k ∧ g.submitted = n + count ∧
        ((∀ o ∈ ends, ∃ r, o = .ok r) → g.collected = g.submitted))
      ⟨k, n + count, n⟩ (Threaded.collect k n count) := by
  induction count generalizing n with
  | zero => exact .done ⟨rfl, rfl, fun _ => rfl⟩
  | succ count ih =>
    refine .await fun o => ?_
    cases o with
    | error f =>
      refine .done ⟨rfl, rfl, fun hall => ?_⟩
      obtain ⟨_, hr⟩ := hall _ (List.mem_singleton_self _)
      cases hr
    | ok r =>
      have hshift : n + (count + 1) = n + 1 + count := by omega
      rw [hshift]
      refine ih.bind fun g' ends hg => .done ⟨hg.1, hg.2.1, fun hall => hg.2.2 fun o ho => ?_⟩
      exact hall o (List.mem_cons_of_mem _ ho)

theorem keeps_pool {jobs : List Job}
    (hjobs : ∀ i j, jobs[i]? = some j → (Event.submitted ⟨k, 0 + i⟩ j).Fits s features) :
    Keeps s features k ⟨k, 0, 0⟩
      (fun g o => g.turn = k ∧ g.submitted = jobs.length ∧
        ∀ ends, o = .ok ends → (∀ o ∈ ends, ∃ r, o = .ok r) → g.collected = g.submitted)
      (Suite.Action.pool jobs) := by
  intro l
  have hrun : ((Suite.Action.pool jobs).run.run l).inThreads k = Threaded.submitAll k 0 jobs >>= fun _ =>
      Threaded.collect k 0 jobs.length >>= fun ends => .done (.ok ends, l) := rfl
  rw [hrun]
  refine (abides_submitAll hjobs).bind fun g _ hg => ?_
  subst hg
  refine abides_collect.bind fun g ends hg => .done ⟨hg.1, ?_, ?_⟩
  · rw [hg.2.1, Nat.zero_add]
  · intro _ hends
    cases hends
    exact hg.2.2

theorem keeps_runInPool (hf : features[k]? = some f) :
    Keeps s features k ⟨k, 0, 0⟩
      (fun g o => g.turn = k ∧ g.Whole features ∧ ∀ rs, o = .ok rs → g.collected = g.submitted)
      (s.runInPool f) := by
  have hjobs : ∀ i j, (s.jobs f)[i]? = some j → (Event.submitted ⟨k, 0 + i⟩ j).Fits s features := by
    intro i j hj
    rw [Suite.getElem?_jobs] at hj
    obtain ⟨c, hc, rfl⟩ := Option.map_eq_some_iff.1 hj
    rw [Nat.zero_add]
    exact ⟨f, c, hf, hc, rfl⟩
  have hwhole : ∀ {g : Progress}, g.turn = k → g.submitted = (s.jobs f).length → g.Whole features := by
    intro g hturn hsubmitted
    refine .inr fun f' hf' => ?_
    rw [hturn, hf] at hf'
    cases hf'
    exact hsubmitted.trans (s.length_jobs f)
  rw [Suite.runInPool_eq]
  refine keeps_bind (keeps_pool hjobs) ?_ ?_
  · rintro g ends ⟨hturn, hsubmitted, hall⟩ l
    rw [Suite.run_mapM_collect]
    cases hends : ends.mapM id with
    | ok rs =>
      refine .done ⟨hturn, hwhole hturn hsubmitted, fun _ _ => hall ends rfl fun o ho => ?_⟩
      obtain ⟨r, _, hr⟩ := exists_left_of_forall₂ (mapM_eq_ok_iff.1 hends).flip ho
      exact ⟨r, hr⟩
    | error e =>
      rw [Suite.Action.collect]
      split
      · exact .stall
      · refine .done ⟨hturn, hwhole hturn hsubmitted, ?_⟩
        rintro _ ⟨⟩
  · rintro g e ⟨hturn, hsubmitted, _⟩
    refine ⟨hturn, hwhole hturn hsubmitted, ?_⟩
    rintro _ ⟨⟩

/-- The turn of a feature went well and is over, or the leading thread has stopped short somewhere in it. -/
def Settled (features : List Feature) (k : Nat) (g : Progress) (o : Except Fault α) : Prop :=
  g.turn ≤ features.length ∧ g.Whole features ∧ ∀ a, o = .ok a → g = ⟨k + 1, 0, 0⟩

theorem settled_error {e : Fault} (hturn : g.turn ≤ features.length) (hwhole : g.Whole features) :
    Settled features k g (.error e : Except Fault α) := by
  refine ⟨hturn, hwhole, ?_⟩
  rintro _ ⟨⟩

theorem settled_of_eq {o : Except Fault α} (hf : features[k]? = some f) (hg : g = ⟨k + 1, 0, 0⟩) :
    Settled features k g o := by
  subst hg
  exact ⟨(List.getElem?_eq_some_iff.1 hf).1, .inl rfl, fun _ _ => rfl⟩

/-- A feature whose scenarios are run in the pool has its turn until they are over. -/
theorem keeps_runFeature (hw : 1 < s.workers) (hf : features[k]? = some f) :
    Keeps s features k ⟨k, 0, 0⟩ (Settled features k) (s.runFeature f) := by
  have hlt := (List.getElem?_eq_some_iff.1 hf).1
  have hbefore : Confined (within features k ⟨k, 0, 0⟩)
      (s.runHooks .beforeFeature (.feature f none)) := by
    refine Suite.confined_runHooks (framing_within (C := (· = .feature f none)) ?_) rfl fun _ _ => trivial
    rintro c _ rfl
    exact ⟨hf, fun _ _ => id⟩
  have hscenarios : ∀ hooks, Keeps s features k ⟨k, 0, 0⟩
      (fun g o => g.turn = k ∧ g.Whole features ∧ ∀ rs, o = .ok rs → g.collected = g.submitted)
      (if Suite.allWell hooks then s.runScenarios f else s.skipScenarios f f.numbered) := by
    intro hooks
    split
    · rw [Suite.runScenarios, if_pos hw]
      exact keeps_runInPool hf
    · have hskip : Confined (within features k ⟨k, 0, 0⟩) (s.skipScenarios f f.numbered) :=
        Suite.confined_skipScenarios framing_unhooked
      refine (keeps_of_confined hskip).imp ?_
      rintro _ _ rfl
      exact ⟨rfl, .inl rfl, fun _ _ => rfl⟩
  have hframing : SuiteRequest.Framing (fun scope => ∃ r, scope = .feature f (some r))
      (within features k ⟨k + 1, 0, 0⟩) := by
    refine framing_within ?_
    rintro c _ ⟨r, rfl⟩
    exact ⟨hf, fun _ _ => Nat.lt_succ_of_le⟩
  rw [Suite.runFeature_eq]
  refine keeps_bind (keeps_of_confined hbefore) ?_ ?_
  · rintro _ hooks rfl
    refine keeps_bind (hscenarios hooks) ?_ ?_
    · rintro g scenarios ⟨rfl, hwhole, hall⟩
      refine Keeps.turn (hall _ rfl) hwhole (Nat.lt_succ_self _) ?_
      refine (keeps_of_confined ?_).imp fun _ _ => settled_of_eq hf
      exact Suite.confined_afterFeature hframing scenarios hooks (fun r => ⟨r, rfl⟩) fun _ => trivial
    · rintro g e ⟨rfl, hwhole, _⟩
      exact settled_error (Nat.le_of_lt hlt) hwhole
  · rintro _ e rfl
    exact settled_error (Nat.le_of_lt hlt) (.inl rfl)

theorem keeps_turn (hw : 1 < s.workers) (hf : features[k]? = some f) (ready : Bool) :
    Keeps s features k ⟨k, 0, 0⟩ (Settled features k) (s.runFeatures ready [f]) := by
  have hlt := (List.getElem?_eq_some_iff.1 hf).1
  have haborted : Confined (within features k ⟨k, 0, 0⟩)
      (if ready then Suite.Action.aborted else pure true) := by
    split
    · exact Suite.confined_perform (admits_of_free trivial fun _ => id)
    · exact confined_pure _
  have hfeature : ∀ skipped : Bool, Keeps s features k ⟨k, 0, 0⟩ (Settled features k)
      (if skipped then s.skipFeature f else s.runFeature f) := by
    intro skipped
    split
    · refine Keeps.turn rfl (.inl rfl) (Nat.lt_succ_self k) ?_
      exact (keeps_of_confined (Suite.confined_skipFeature framing_unhooked)).imp fun _ _ => settled_of_eq hf
    · exact keeps_runFeature hw hf
  rw [Suite.runFeatures_cons]
  refine keeps_bind (keeps_of_confined haborted) ?_ ?_
  · rintro _ skipped rfl
    refine keeps_bind (hfeature skipped) (fun g r hg l => ?_) fun g e hg => settled_error hg.1 hg.2.1
    exact .done ⟨hg.1, hg.2.1, fun _ _ => hg.2.2 r rfl⟩
  · rintro _ e rfl
    exact settled_error (Nat.le_of_lt hlt) (.inl rfl)

/-- However the loop over the features ends, the scenarios of a feature were all handed over or none. -/
theorem abides_loopInThreads (hw : 1 < s.workers) (ready : Bool) (before fs : List Feature)
    (hfeatures : features = before ++ fs) (l : List FeatureResult) :
    Abides s features (fun g _ => g.turn ≤ features.length ∧ g.Whole features) ⟨before.length, 0, 0⟩
      (s.loopInThreads ready before.length fs l) := by
  induction fs generalizing before l with
  | nil => exact .done ⟨by simp [hfeatures], .inl rfl⟩
  | cons f fs ih =>
    have hf : features[before.length]? = some f := by simp [hfeatures]
    refine (keeps_turn hw hf ready l).bind fun g r hg => ?_
    obtain ⟨o, l'⟩ := r
    cases o with
    | error e => exact .done ⟨hg.1, hg.2.1⟩
    | ok a =>
      have hnext := ih (before ++ [f]) (by simp [hfeatures]) l'
      rw [List.length_append] at hnext
      rw [hg.2.2 a rfl]
      exact hnext

end Pool

/-- The thread that leads a suite keeps pace. -/
theorem abides_inThreads (hw : 1 < s.workers) (features : List Feature) :
    Abides s features (fun _ _ => True) ⟨0, 0, 0⟩ (s.inThreads features) := by
  have hbefore : SuiteRequest.Framing (· = .suite features none) (within features 0 ⟨0, 0, 0⟩) := by
    refine framing_within ?_
    rintro c _ rfl
    exact admits_of_free rfl fun _ => id
  have hopening : Confined (within features 0 ⟨0, 0, 0⟩) (s.opening features) :=
    Suite.confined_opening hbefore rfl (admits_of_free trivial fun _ => id) fun _ => trivial
  have hclosing : ∀ g : Progress, g.turn = features.length → ∀ hooks outcome,
      Confined (within features features.length g) (s.closing features hooks outcome) := by
    intro g hg hooks outcome
    have hafter : SuiteRequest.Framing (fun scope => ∃ r, scope = .suite features (some r))
        (within features features.length g) := by
      refine framing_within ?_
      rintro c _ ⟨r, rfl⟩
      exact ⟨rfl, fun t ht _ => hg ▸ ht.turn_lt⟩
    exact Suite.confined_closing hafter (fun r => ⟨r, rfl⟩) (fun _ => admits_of_free trivial fun _ => id)
      (admits_of_free trivial fun _ => id) fun _ => trivial
  refine (keeps_of_confined hopening []).bind fun g r hg => ?_
  subst hg
  obtain ⟨o, l⟩ := r
  cases o with
  | error e => exact .done trivial
  | ok hooks =>
    refine (abides_loopInThreads hw (Suite.allWell hooks) [] features rfl l).bind fun g r hg => ?_
    rw [Suite.shutDown, if_pos hw]
    refine .shutDown ?_
    have hrest : ∀ g : Progress, g.turn = features.length →
        Abides s features (fun _ _ => True) g
          (((s.closing features hooks r.1).run.run r.2).inThreads features.length >>= fun r => .done r.1) :=
      fun g hg => (keeps_of_confined (hclosing g hg hooks r.1) r.2).bind fun _ _ _ => .done trivial
    -- The loop stopped short in some turn, or went through all of them.
    rcases Nat.lt_or_eq_of_le hg.1 with hlt | heq
    · exact .turn rfl hg.2 hlt (hrest _ rfl)
    · exact hrest _ heq

/-- In any run with more than one worker, whatever anyone answers, however the steps of its threads are
mixed, and however far it has come: hooks after a feature wait for its scenarios, hooks before a feature and
its scenarios for those of the features before, hooks after the suite for all. -/
theorem barred_of_reaches (hw : 1 < s.workers) {features : List Feature} {h : List Event}
    {st : Threads (Except Fault SuiteResult)} (hr : Reaches s.workers (s.inThreads features) h st) :
    Barred s features h := by
  obtain ⟨g, _, hk⟩ := kept_of_reaches (abides_inThreads hw features) hr
  exact hk.barred

/-- The sink refuses every record. The end of the first scenario is seen while the other one waits, and the
hook after the suite waits for both. -/
theorem barred_of_reaches_sample :
    let s := Sample.suite [Sample.hook .afterFeature 1 "tidy", Sample.hook .afterSuite 2 "close"] 2 false
    let features := [Sample.doubled "bookings", Sample.feature "payments"]
    ∃ (h : List Event) (st : Threads (Except Fault SuiteResult)),
      1 < s.workers ∧ Reaches s.workers (s.inThreads features) h st ∧
        (h.dropWhile fun | .awaited _ => false | _ => true).any (fun | .picked _ => true | _ => false) = true ∧
        h.any (fun | .led _ m => m.call?.any Call.closes | _ => false) = true ∧ Barred s features h := by
  intro s features
  let w := Sample.surroundings (fun _ => some (.ofKind "OSError" "no space")) fun _ => none
  let often : Choice → List Choice := List.replicate 9
  let choices :=
    often .lead ++ often (.work 0) ++ often .lead ++ often (.work 1) ++ often .lead
  have hr : Reaches s.workers (s.inThreads features) _ _ :=
    reaches_drive w.serve (·.requested) choices .start ⟨0, false⟩
  refine ⟨_, _, by decide, hr, ?_, ?_, barred_of_reaches (by decide) hr⟩ <;> decide +kernel

end Threads
end Rehearsal
