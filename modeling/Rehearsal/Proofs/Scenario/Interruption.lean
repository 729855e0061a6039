import Rehearsal.Proofs.Scenario.Course
import Rehearsal.Proofs.Scenario.Summary

/-! A scenario that the sink interrupts. While hooks before the scenario or its steps are at work the
interrupt is contained: the rest is skipped, and the scenario comes to its result, which is the only one
that is handed over. An interrupt at any other time leaves the run. -/

namespace Rehearsal
set_option autoImplicit false

/-- Hooks before a scenario, or its steps, are at work. -/
def Stage.isWork : Stage → Bool
  | runningBeforeHooks | runningStep => true
  | _ => false

namespace Record

def scenario? : Record → Option ScenarioResult
  | scenario r => some r
  | _ => none

/-- Records that are handed over while hooks before a scenario or its steps are at work. -/
def ofWork : Record → Bool
  | hook _ | step _ => true
  | stage e => e.stage.isWork
  | _ => false

/-- Records that are handed over at any other time of a run. -/
def ofRest : Record → Bool
  | stage e => !e.stage.isWork
  | _ => true

end Record

namespace Moment

def isRefused (m : Moment Request.Answer Bool) : Bool := m.handed?.any (·.2.isSome)

/-- The result of a scenario, as it is handed over. -/
def told? (m : Moment Request.Answer Bool) : Option ScenarioResult :=
  m.handed?.bind fun p => p.1.scenario?

end Moment

namespace Trace
variable {t u v : Trace} {q : Record → Bool}

def scenarios (t : Trace) : List ScenarioResult := t.records.filterMap Record.scenario?

@[simp] theorem scenarios_append : scenarios (t ++ u) = t.scenarios ++ u.scenarios := by
  simp [scenarios]

theorem scenarios_eq_filterMap : t.scenarios = t.filterMap Moment.told? := by
  rw [scenarios, records, List.filterMap_map, handed, List.filterMap_filterMap]
  rfl

/-- Was the stage that was announced last one of work? -/
def atWork (t : Trace) : Bool := t.stages.getLast?.any (·.stage.isWork)

theorem atWork_append :
    atWork (t ++ u) = (u.stages.getLast?.or t.stages.getLast?).any (·.stage.isWork) := by
  rw [atWork, stages_append, List.getLast?_append]

theorem atWork_append_of_atWork (h : u.atWork = true) : atWork (t ++ u) = true := by
  obtain ⟨e, he, hwork⟩ := (Option.any_eq_true ..).1 h
  rw [atWork_append, he]
  exact hwork

theorem atWork_append_eq_false (ht : t.atWork = false) (hu : u.atWork = false) :
    atWork (t ++ u) = false := by
  rw [atWork_append]
  cases he : u.stages.getLast? with
  | none => exact ht
  | some e =>
    rw [atWork, he] at hu
    exact hu

/-- The sink refuses at most one record, by an interrupt. -/
structure RefusedOnce (t : Trace) : Prop where
  once : t.handed.countP (·.2.isSome) ≤ 1
  interrupt : ∀ r f, (r, some f) ∈ t.handed → f.family = .interrupt

theorem RefusedOnce.of_sublist (h : t.RefusedOnce) (hu : u.Sublist t) : u.RefusedOnce where
  once := Nat.le_trans (List.Sublist.countP_le (handed_sublist hu)) h.once
  interrupt r f hr := h.interrupt r f ((handed_sublist hu).subset hr)

theorem refusedOnce_of_append (h : Trace.RefusedOnce (t ++ u)) : t.RefusedOnce ∧ u.RefusedOnce :=
  ⟨h.of_sublist (List.sublist_append_left t u), h.of_sublist (List.sublist_append_right t u)⟩

/-- How the refusals of the sink show in a part of a run that ended in a fault or in none: those that
come while there is work are contained, and any other is the end of it. No work is left open. -/
structure Withstands (t : Trace) (e : Option Fault) : Prop where
  contained : e = none → ∀ u m v, t = u ++ m :: v → m.isRefused = true → atWork (u ++ [m]) = true
  ends : ∀ f, e = some f → ∃ u r b, t = u ++ [⟨.emit r, some f, b⟩]
  rests : t.atWork = false

/-- Only records of a kind are handed over. -/
def HandsOnly (q : Record → Bool) (t : Trace) : Prop := ∀ p ∈ t.handed, q p.1 = true

theorem HandsOnly.append (ht : t.HandsOnly q) (hu : u.HandsOnly q) : HandsOnly q (t ++ u) := by
  intro p hp
  rw [handed_append] at hp
  exact (List.mem_append.1 hp).elim (ht p) (hu p)

theorem HandsOnly.of_sublist (ht : t.HandsOnly q) (hu : u.Sublist t) : u.HandsOnly q :=
  fun p hp => ht p ((handed_sublist hu).subset hp)

theorem handsOnly_of_handed_nil (h : t.handed = []) : t.HandsOnly q := by
  rw [HandsOnly, h]
  exact List.forall_mem_nil _

theorem HandsOnly.scenarios (h : t.HandsOnly (·.scenario?.isNone)) : t.scenarios = [] := by
  rw [Trace.scenarios, records, List.filterMap_map, List.filterMap_eq_nil_iff]
  exact fun p hp => Option.isNone_iff_eq_none.1 (h p hp)

theorem HandsOnly.stages (h : t.HandsOnly q) : ∀ e ∈ t.stages, q (.stage e) = true := by
  intro e he
  obtain ⟨r, hr, hstage⟩ := List.mem_filterMap.1 he
  obtain ⟨p, hp, rfl⟩ := List.mem_map.1 hr
  have hq := h p hp
  rcases p with ⟨r, f⟩
  cases r with
  | stage _ =>
    cases hstage
    exact hq
  | _ => cases hstage

theorem atWork_eq {work : Bool} (h : ∀ e ∈ u.stages, e.stage.isWork = work) (hu : u.stages ≠ []) :
    atWork (t ++ u) = work := by
  rw [atWork, stages_append, List.getLast?_append, List.getLast?_eq_some_getLast hu]
  exact h _ (List.getLast_mem hu)

theorem HandsOnly.rests (h : t.HandsOnly Record.ofRest) : t.atWork = false := by
  by_cases ht : t.stages = []
  · rw [atWork, ht]
    rfl
  · refine atWork_eq (t := []) (fun e he => ?_) ht
    simpa [Record.ofRest] using h.stages e he

theorem exists_handed {m : Moment Request.Answer Bool} (hm : m.isRefused = true) (hmem : m ∈ t) :
    ∃ r f, (r, some f) ∈ t.handed := by
  obtain ⟨⟨r, e⟩, hp, he⟩ := (Option.any_eq_true ..).1 hm
  obtain ⟨f, rfl⟩ := Option.isSome_iff_exists.1 he
  exact ⟨r, f, List.mem_filterMap.2 ⟨m, hmem, hp⟩⟩

theorem not_mem_of_taken {m : Moment Request.Answer Bool} (ht : t.taken = true)
    (hm : m.isRefused = true) : m ∉ t := by
  intro hmem
  obtain ⟨r, f, hr⟩ := exists_handed hm hmem
  cases List.all_eq_true.1 ht _ hr

section Split
variable {m : Moment Request.Answer Bool} {w : Trace}

theorem split_of_taken_left (h : t ++ u = v ++ m :: w) (hm : m.isRefused = true)
    (ht : t.taken = true) : ∃ v', v = t ++ v' ∧ u = v' ++ m :: w :=
  split_of_not_mem_left h (not_mem_of_taken ht hm)

theorem split_of_taken_right (h : t ++ u = v ++ m :: w) (hm : m.isRefused = true)
    (hu : u.taken = true) : ∃ w', t = v ++ m :: w' ∧ w = w' ++ u :=
  split_of_not_mem_right h (not_mem_of_taken hu hm)

theorem RefusedOnce.unique {n : Moment Request.Answer Bool} {z : Trace}
    (hi : Trace.RefusedOnce (v ++ m :: w)) (hm : m.isRefused = true) (hn : n.isRefused = true)
    (h : v ++ m :: w = u ++ n :: z) : v = u ∧ m = n := by
  have hexclusive : ∀ {a b : Trace} {m n : Moment Request.Answer Bool}, m.isRefused = true →
      n.isRefused = true → m ∈ a → n ∈ b → Trace.RefusedOnce (a ++ b) → False := by
    intro a b m n hm hn ha hb hi
    obtain ⟨r, f, hr⟩ := exists_handed hm ha
    obtain ⟨r', g, hr'⟩ := exists_handed hn hb
    exact exclusive_of_once hi.once hr hr'
  rcases split_append h with ⟨y, rfl, hy⟩ | ⟨y, rfl, _⟩
  · cases y with
    | nil =>
      obtain ⟨rfl, _⟩ := List.cons.inj hy
      exact ⟨(List.append_nil v).symm, rfl⟩
    | cons k y =>
      obtain ⟨rfl, rfl⟩ := List.cons.inj hy
      have hsplit : v ++ m :: (y ++ n :: z) = (v ++ [m]) ++ (y ++ n :: z) := by simp
      exact (hexclusive hm hn (by simp) (by simp) (hsplit ▸ hi)).elim
  · have hsplit : (u ++ n :: y) ++ m :: w = (u ++ n :: y) ++ (m :: w) := rfl
    exact (hexclusive hn hm (by simp) List.mem_cons_self (hsplit ▸ hi)).elim

end Split

theorem withstands_of_taken (ht : t.taken = true) (hrest : t.HandsOnly Record.ofRest) :
    t.Withstands none where
  contained _ v m w hsplit hm := by
    subst hsplit
    exact absurd (by simp) (not_mem_of_taken ht hm)
  ends := nofun
  rests := hrest.rests

theorem Withstands.append {e : Option Fault} (ht : t.Withstands none) (hu : u.Withstands e) :
    Withstands (t ++ u) e where
  contained he v m w hsplit hm := by
    rcases split_append hsplit with ⟨y, rfl, hy⟩ | ⟨y, hy, _⟩
    · rw [List.append_assoc]
      exact atWork_append_of_atWork (hu.contained he y m w hy hm)
    · exact ht.contained rfl v m y hy hm
  ends f hf := by
    obtain ⟨v, r, b, rfl⟩ := hu.ends f hf
    exact ⟨t ++ v, r, b, (List.append_assoc ..).symm⟩
  rests := atWork_append_eq_false ht.rests hu.rests

end Trace

namespace Executor
variable {x : Executor} {c : Case} {l l' : Ledger} {t u : Trace} {q : Record → Bool}
  {scenario : Scenario} {feature : Option Feature} {id : Option String}

theorem Hands.handsOnly {r : Record} {e : Option Fault} (hr : q r = true) (h : x.Hands r t e) :
    t.HandsOnly q := by
  cases h with
  | silent _ => exact Trace.handsOnly_of_handed_nil rfl
  | loud e b _ => exact List.forall_mem_singleton.2 hr

/-- Where there is no work, a part that only the sink cuts short withstands. -/
theorem withstands_of_cut {e : Option Fault} (hcut : x.CutBy t e)
    (hrest : t.HandsOnly Record.ofRest) : t.Withstands e := by
  cases e with
  | none => exact Trace.withstands_of_taken hcut hrest
  | some f =>
    obtain ⟨_, v, r, b, rfl, _⟩ := hcut
    refine ⟨nofun, fun g hg => ?_, hrest.rests⟩
    cases hg
    exact ⟨v, r, b, rfl⟩

theorem acts_handsOnly (hq : ∀ r, q (.hook r) = true) :
    Acts x c (fun _ t _ _ => Trace.HandsOnly q t) (fun _ => True) (fun _ => True) where
  refl _ := Trace.handsOnly_of_handed_nil rfl
  trans := Trace.HandsOnly.append
  offstage ht _ := Trace.handsOnly_of_handed_nil (Trace.handed_of_offstage ht)
  call _ _ _ _ _ _ _ _ h := by
    obtain ⟨f, b, u, rfl, hu, _⟩ := ends_invoke h
    exact Trace.handsOnly_of_handed_nil (Trace.handed_of_call hu)
  hook k f _ _ _ _ _ h := (ends_recordHook h).2.handsOnly (hq _)
  stray _ _ _ := Trace.handsOnly_of_handed_nil rfl

theorem runActs_handsOnly (hhook : ∀ r, q (.hook r) = true) (hstep : ∀ r, q (.step r) = true)
    (hwork : ∀ e : StageEvent, e.stage.isWork = true → q (.stage e) = true) :
    RunActs x c (fun _ t _ _ => Trace.HandsOnly q t) (fun _ => True) (fun _ => True) where
  toActs := acts_handsOnly hhook
  step _ _ _ _ _ h := (ends_recordStep h).2.handsOnly (hstep _)
  beforeHooks _ _ _ _ h := (ends_transition h).2.handsOnly (hwork _ rfl)
  running _ _ _ _ _ h := (ends_transition h).2.handsOnly (hwork _ rfl)
  admitsStep _ _ _ := trivial
  admitsStepHook _ _ := trivial
  admitsHook _ := trivial
  beforeScenario := trivial
  beforeStep := trivial
  afterStep := trivial

theorem handsOnly_cleanUp {a : Arena} (ha : a.nodes ≠ []) (hhook : ∀ r, q (.hook r) = true)
    (hstage : ∀ e : StageEvent, e.stage.isWork = false → q (.stage e) = true) :
    Upholds (fun _ t _ _ => Trace.HandsOnly q t) (x.cleanUp c a) :=
  (acts_handsOnly hhook).cleanUp ha trivial
    (fun _ _ _ _ h => (ends_transition h).2.handsOnly (hstage _ rfl)) fun _ _ => trivial

theorem sequential_handsOnly :
    Sequential fun (_ : Ledger) t (_ : Option Fault) (_ : Ledger) => Trace.HandsOnly q t :=
  ⟨fun _ => Trace.handsOnly_of_handed_nil rfl, Trace.HandsOnly.append⟩

theorem handsOnly_announce {stage : Stage} (hstage : ∀ e : StageEvent, e.stage = stage → q (.stage e) = true)
    (hresult : ∀ r, q (.scenario r) = true) :
    Upholds (fun _ t _ _ => Trace.HandsOnly q t) (x.announce c stage) := by
  have hseq : Sequential fun (_ : Ledger) t (_ : Option Fault) (_ : Ledger) => Trace.HandsOnly q t :=
    sequential_handsOnly
  refine upholds_bind hseq (upholds_get hseq) fun l => ?_
  refine upholds_bind hseq (fun _ _ _ _ h => (ends_transition h).2.handsOnly (hstage _ rfl)) fun _ => ?_
  refine upholds_bind hseq (fun _ _ _ _ h => (ends_emit h).2.handsOnly (hresult _)) fun _ => ?_
  exact upholds_pure hseq _

theorem handsOnly_conclude (hstage : ∀ e : StageEvent, e.stage.isWork = false → q (.stage e) = true)
    (hresult : ∀ r, q (.scenario r) = true) :
    Upholds (fun _ t _ _ => Trace.HandsOnly q t) (x.conclude c) := by
  have hseq : Sequential fun (_ : Ledger) t (_ : Option Fault) (_ : Ledger) => Trace.HandsOnly q t :=
    sequential_handsOnly
  have haside : ∀ {t : Trace}, t.offstage = true → t.HandsOnly q :=
    fun ht => Trace.handsOnly_of_handed_nil (Trace.handed_of_offstage ht)
  refine upholds_bind hseq (fun _ _ _ _ h => haside (ends_stopped h).2.1) fun stop => ?_
  refine upholds_bind hseq (handsOnly_announce (fun e he => hstage e ?_) hresult) fun r => ?_
  · rw [he]
    cases stop <;> rfl
  · refine upholds_bind hseq (fun _ _ _ _ h => haside (ends_warn h).2.1) fun _ => ?_
    exact upholds_pure hseq _

theorem handsOnly_setUp (hstage : ∀ e : StageEvent, e.stage.isWork = false → q (.stage e) = true)
    {o : Except Fault (Except Broken DispatchTable)} (h : Ends (x.setUp c) l t o l') :
    t.HandsOnly q := by
  obtain ⟨_, u, v, rfl, hv, hu, _⟩ := ends_setUp h
  exact (hu.handsOnly (hstage _ rfl)).append
    (Trace.handsOnly_of_handed_nil (Trace.handed_of_offstage hv))

theorem handsOnly_skipAll (hskip : ∀ r : StepResult, r.status = .skipped → q (.step r) = true)
    {index : Nat} {ss : List Step} :
    Upholds (fun _ t _ _ => Trace.HandsOnly q t) (x.skipAll c index ss) :=
  upholds_skipAll sequential_handsOnly fun r hr _ _ _ _ h =>
    (ends_recordStep h).2.handsOnly (hskip r hr)

theorem handsOnly_recover (hskip : ∀ r : StepResult, r.status = .skipped → q (.step r) = true)
    {r : Except Fault Unit} {o : Except Fault (Except Fault Unit)}
    (h : Ends (x.recover c r) l t o l') : t.HandsOnly q := by
  obtain ⟨_, _, ⟨rfl, _⟩ | ⟨_, _, _, ⟨u, v, l₁, rfl, hi, hs⟩ | ⟨_, _, hi⟩⟩⟩ := ends_recover h
  · exact Trace.handsOnly_of_handed_nil rfl
  · rw [skipRemaining, ends_get_bind_iff] at hs
    refine Trace.HandsOnly.append ?_ (handsOnly_skipAll hskip hs)
    exact Trace.handsOnly_of_handed_nil (Trace.handed_of_offstage (ends_interrupt hi).2.1)
  · exact Trace.handsOnly_of_handed_nil (Trace.handed_of_offstage (ends_interrupt hi).2.1)

theorem handsOnly_abandon {cause : Fault} {salvaged : Option Arena}
    (ha : ∀ a, salvaged = some a → a.nodes ≠ []) (hhook : ∀ r, q (.hook r) = true)
    (hskip : ∀ r : StepResult, r.status = .skipped → q (.step r) = true)
    (hstage : ∀ e : StageEvent, e.stage.isWork = false → q (.stage e) = true)
    (hresult : ∀ r, q (.scenario r) = true) :
    Upholds (fun _ t _ _ => Trace.HandsOnly q t) (x.abandon c cause salvaged) := by
  refine upholds_abandon sequential_handsOnly
    (fun level message fields => ?_) (handsOnly_skipAll hskip) ?_ ?_
  · intro l t o l' h
    exact Trace.handsOnly_of_handed_nil (Trace.handed_of_offstage (Effect.ends_log h).2.1)
  · cases salvaged with
    | none => exact upholds_pure sequential_handsOnly _
    | some a => exact handsOnly_cleanUp (ha a rfl) hhook hstage
  · refine handsOnly_announce (fun e he => hstage e ?_) hresult
    rw [he]
    rfl

/-- The first moment of work announces it. -/
theorem atWork_of_proceedThrough {d : DispatchTable} {v w : Trace} {m : Moment Request.Answer Bool}
    {o : Except Fault Unit} (hd : d.Fit) (hx : x.emits = true)
    (h : Ends (x.proceedThrough c d) l (v ++ m :: w) o l') : Trace.atWork (u ++ (v ++ [m])) = true := by
  have hwork : Trace.HandsOnly Record.ofWork (v ++ m :: w) :=
    (runActs_handsOnly (fun _ => rfl) (fun _ => rfl) fun _ he => he).proceedThrough hd h
  have hprefix : (v ++ [m]).Sublist (v ++ m :: w) :=
    List.Sublist.append_left (List.singleton_sublist.2 List.mem_cons_self) v
  refine Trace.atWork_eq (hwork.of_sublist hprefix).stages ?_
  have hfirst : ∃ n y, v ++ m :: w = n :: y ∧ n.announced?.isSome = true := by
    have hloud : ∀ {a : Trace} {f : Option Fault},
        x.Hands (.stage (stageEvent c .runningBeforeHooks)) a f →
          ∃ n, a = [n] ∧ n.announced?.isSome = true := by
      intro a f ha
      cases ha with
      | silent hn => cases hx.symm.trans hn
      | loud f b _ => exact ⟨_, rfl, rfl⟩
    rcases ends_bind_iff.1 h with ⟨a, b, _, l₁, he, hs, _⟩ | ⟨e, _, hs⟩
    · obtain ⟨n, rfl, hn⟩ := hloud (ends_transition hs).2
      exact ⟨n, b, he, hn⟩
    · obtain ⟨n, he, hn⟩ := hloud (ends_transition hs).2
      exact ⟨n, [], he, hn⟩
  obtain ⟨n, y, he, hn⟩ := hfirst
  obtain ⟨e, hannounced⟩ := Option.isSome_iff_exists.1 hn
  cases v with
  | nil =>
    obtain ⟨rfl, _⟩ := List.cons.inj he
    rw [List.nil_append, Trace.stages_cons, hannounced]
    exact List.cons_ne_nil _ _
  | cons n' v =>
    obtain ⟨rfl, _⟩ := List.cons.inj he
    rw [List.cons_append, Trace.stages_cons, hannounced]
    exact List.cons_ne_nil _ _

theorem hands_of_setUp_error {f : Fault} (h : Ends (x.setUp c) l t (.error f) l') :
    x.Hands (.stage (stageEvent c .initializing)) t (some f) := by
  rcases ends_bind_iff.1 h with ⟨u, v, _, l₁, rfl, _, hk⟩ | ⟨e, he, hi⟩
  · rcases ends_bind_iff.1 hk with ⟨w, z, r, l₂, rfl, _, hr⟩ | ⟨e, he, hc⟩
    · rcases r with b | a
      · cases (ends_pure_iff.1 hr).2.1
      · simp only at hr
        split at hr <;> cases (ends_pure_iff.1 hr).2.1
    · obtain ⟨_, _, hr, _⟩ := ends_lift_iff.1 hc
      cases hr
  · cases he
    exact (ends_transition hi).2

theorem taken_setUp {r : Except Broken DispatchTable} (h : Ends (x.setUp c) l t (.ok r) l') :
    t.taken = true := by
  obtain ⟨_, u, v, rfl, hv, hu, _⟩ := ends_setUp h
  have htaken : Trace.taken u = true := cutBy_of_hands hu
  rw [Trace.taken_append, htaken, Trace.taken_of_handed_nil (Trace.handed_of_offstage hv)]
  rfl

/-- What the run of work was recovered from was the one refusal there is, so that nothing is refused
while the rest is skipped. -/
theorem recovers_of_refusedOnce {r r' : Except Fault Unit} {l₁ l₂ : Ledger} (ho : x.Orderly c)
    (hcut : x.CutBy u (errorIn r)) (h : Ends (x.recover c r) l₁ t (.ok r') l₂) (ht : t.tame = true)
    (hi : Trace.RefusedOnce (u ++ t)) : r' = .ok () ∧ t.taken = true := by
  obtain ⟨_, hr, ⟨rfl, rfl, _, hno⟩ | ⟨f, rfl, _, hrest⟩⟩ := ends_recover h
  · cases hr
    cases r' with
    | ok _ => exact ⟨rfl, rfl⟩
    | error f =>
      obtain ⟨r, hmem⟩ := hcut.mem_handed
      have hmem : (r, some f) ∈ Trace.handed (u ++ []) := by rwa [List.append_nil]
      exact absurd (hi.interrupt r f hmem) (hno f rfl)
  · cases hr
    obtain ⟨r, hmem⟩ := hcut.mem_handed
    rcases hrest with ⟨a, b, l₃, rfl, ha, hb⟩ | ⟨g, rfl, ha⟩
    swap
    · cases (ends_interrupt ha).2.2 ht
    rw [Trace.tame_append, Bool.and_eq_true] at ht
    have hskip := runActs_onlyCutBySink.skipRemaining hb ho ht.2
    cases r' with
    | error g =>
      obtain ⟨r', hmem'⟩ := hskip.mem_handed
      have hmem : (r, some f) ∈ Trace.handed (u ++ a) := by
        rw [Trace.handed_append]
        exact List.mem_append_left _ hmem
      rw [← List.append_assoc] at hi
      exact (Trace.exclusive_of_once hi.once hmem hmem').elim
    | ok _ =>
      have hskip : Trace.taken b = true := hskip
      refine ⟨rfl, ?_⟩
      rw [Trace.taken_append, hskip,
        Trace.taken_of_handed_nil (Trace.handed_of_offstage (ends_interrupt ha).2.1)]
      rfl

theorem withstands_runComposed {d : DispatchTable} {o : Except Fault ScenarioResult} (hd : d.Fit)
    (ho : x.Orderly c) (hx : x.emits = true) (ht : t.tame = true) (hu : u.taken = true)
    (hi : Trace.RefusedOnce (u ++ t)) (h : Ends (x.runComposed c d) l t o l') :
    Trace.Withstands (u ++ t) (errorIn o) := by
  obtain ⟨t₁, t₂, t₃, t₄, r₁, r₂, r₃, l₁, l₂, l₃, rfl, hproceed, hrecover, hclean, hend⟩ :=
    ends_runComposed h
  simp only [Trace.tame_append, Bool.and_eq_true] at ht
  obtain ⟨ht₁, ht₂, ht₃, ht₄⟩ := ht
  have hwork : (t₁ ++ t₂).Sublist (u ++ (t₁ ++ (t₂ ++ (t₃ ++ t₄)))) := by
    rw [← List.append_assoc t₁]
    exact (List.sublist_append_left _ _).trans (List.sublist_append_right u _)
  obtain ⟨rfl, htaken₂⟩ := recovers_of_refusedOnce ho
    (runActs_onlyCutBySink.proceedThrough hd hproceed ho ht₁) hrecover ht₂ (hi.of_sublist hwork)
  have hcut₃ := onlyCutBySink_cleanUp hd.rooted hclean ho ht₃
  have hrest₃ : Trace.HandsOnly Record.ofRest t₃ := by
    refine handsOnly_cleanUp hd.rooted (fun _ => rfl) (fun e he => ?_) hclean
    rw [Record.ofRest, he]
    rfl
  have hrest₄ : Trace.HandsOnly Record.ofRest t₄ := by
    rcases hend with ⟨_, _, hk⟩ | ⟨rfl, _⟩
    · refine handsOnly_conclude (fun e he => ?_) (fun _ => rfl) hk
      rw [Record.ofRest, he]
      rfl
    · exact Trace.handsOnly_of_handed_nil rfl
  have hlast : x.CutBy (t₃ ++ t₄) (errorIn o) := by
    rcases hend with ⟨_, rfl, hk⟩ | ⟨rfl, _, f, rfl, rfl | ⟨_, he⟩⟩
    · have htaken₃ : t₃.taken = true := hcut₃
      exact (closingActs_onlyCutBySink.conclude hk ho ht₄).append htaken₃
    · rw [List.append_nil]
      exact hcut₃
    · cases he
  refine ⟨fun hok v m w hsplit hm => ?_, fun f hf => ?_, ?_⟩
  · rw [hok] at hlast
    have hlast : Trace.taken (t₃ ++ t₄) = true := hlast
    have htaken : Trace.taken (t₂ ++ (t₃ ++ t₄)) = true := by
      rw [Trace.taken_append, htaken₂, hlast]
      rfl
    obtain ⟨v', rfl, hrest⟩ := Trace.split_of_taken_left hsplit hm hu
    obtain ⟨w', rfl, _⟩ := Trace.split_of_taken_right hrest hm htaken
    rw [List.append_assoc]
    exact atWork_of_proceedThrough hd hx hproceed
  · rw [hf] at hlast
    obtain ⟨_, v, r, b, hv, _⟩ := hlast
    exact ⟨u ++ (t₁ ++ (t₂ ++ v)), r, b, by rw [hv]; simp⟩
  · have hsplit : u ++ (t₁ ++ (t₂ ++ (t₃ ++ t₄))) = (u ++ (t₁ ++ t₂)) ++ (t₃ ++ t₄) := by simp
    rw [hsplit]
    refine Trace.atWork_eq (fun e he => ?_) ?_
    · simpa [Record.ofRest] using (hrest₃.append hrest₄).stages e he
    · obtain ⟨f, rest, hhanded⟩ := handed_cleanUp hx hclean
      simp [Trace.stages, Trace.records, hhanded, Record.stage?]

theorem withstands_abandon {b : Broken} {o : Except Fault ScenarioResult}
    (ha : ∀ a, b.salvaged = some a → a.nodes ≠ []) (ho : x.Orderly c) (ht : t.tame = true)
    (hu : u.taken = true) (hrest : u.HandsOnly Record.ofRest)
    (h : Ends (x.abandon c b.fault b.salvaged) l t o l') : Trace.Withstands (u ++ t) (errorIn o) :=
  (Trace.withstands_of_taken hu hrest).append
    (withstands_of_cut (onlyCutBySink_abandon ha h ho ht) (handsOnly_abandon ha (fun _ => rfl)
      (fun _ _ => rfl) (fun _ he => by rw [Record.ofRest, he]; rfl) (fun _ => rfl) h))

/-- In the run of a scenario a refusal is contained while there is work, and else the end of it. -/
theorem withstands_run {o : Except Fault ScenarioResult} (h : (x.run scenario feature id).Runs t o)
    (ho : x.Orderly (.named scenario feature id)) (hx : x.emits = true) (ht : t.tame = true)
    (hi : t.RefusedOnce) : t.Withstands (errorIn o) := by
  obtain ⟨l', hc⟩ := runs_run_iff.1 h
  cases caseRun_of_ends hc with
  | refused t hs =>
    have hhands := hands_of_setUp_error hs
    exact withstands_of_cut (cutBy_of_hands hhands) (hhands.handsOnly rfl)
  | escaped t hs he => exact nomatch he.symm.trans (contained_of_setUp hs ht)
  | abandoned u v b hs ha hk =>
    obtain ⟨_, u₁, u₂, rfl, hoff, hu₁, _⟩ := ends_setUp hs
    rw [Trace.tame_append, Bool.and_eq_true] at ht
    have hrest : Trace.HandsOnly Record.ofRest (u₁ ++ u₂) :=
      (hu₁.handsOnly rfl).append (Trace.handsOnly_of_handed_nil (Trace.handed_of_offstage hoff))
    exact withstands_abandon ha ho ht.2 (taken_setUp hs) hrest hk
  | composed u v d hs hd hk =>
    rw [Trace.tame_append, Bool.and_eq_true] at ht
    exact withstands_runComposed hd ho hx ht.2 (taken_setUp hs) hi hk

theorem runActs_resultless : RunActs x c (fun _ t _ _ => Trace.HandsOnly (·.scenario?.isNone) t)
    (fun _ => True) (fun _ => True) :=
  runActs_handsOnly (fun _ => rfl) (fun _ => rfl) fun _ _ => rfl

theorem resultless_cleanUp {a : Arena} (ha : a.nodes ≠ []) :
    Upholds (fun _ t _ _ => Trace.HandsOnly (·.scenario?.isNone) t) (x.cleanUp c a) :=
  handsOnly_cleanUp ha (fun _ => rfl) fun _ _ => rfl

theorem scenarios_of_records {e : StageEvent} {r : ScenarioResult}
    (h : t.records = [.stage e, .scenario r]) : t.scenarios = [r] := by
  rw [Trace.scenarios, h]
  rfl

theorem scenarios_runComposed {d : DispatchTable} {r : ScenarioResult} (hd : d.Fit)
    (hx : x.emits = true) (h : Ends (x.runComposed c d) l t (.ok r) l') : t.scenarios = [r] := by
  obtain ⟨t₁, t₂, t₃, t₄, r₁, l₁, l₂, l₃, rfl, hproceed, hrecover, hclean, hconclude⟩ :=
    parts_of_runComposed h
  obtain ⟨_, _, hrecords, _⟩ := ends_conclude hconclude
  have h₁ : Trace.scenarios t₁ = [] := (runActs_resultless.proceedThrough hd hproceed).scenarios
  have h₃ : Trace.scenarios t₃ = [] := (resultless_cleanUp hd.rooted hclean).scenarios
  simp only [Trace.scenarios_append, h₁, (handsOnly_recover (fun _ _ => rfl) hrecover).scenarios, h₃,
    scenarios_of_records (hrecords hx), List.nil_append]

theorem scenarios_abandon {cause : Fault} {salvaged : Option Arena} {r : ScenarioResult}
    (ha : ∀ a, salvaged = some a → a.nodes ≠ []) (hx : x.emits = true)
    (h : Ends (x.abandon c cause salvaged) l t (.ok r) l') : t.scenarios = [r] := by
  obtain ⟨t₁, t₂, t₃, t₄, l₁, l₂, rfl, hoff, hskip, hclean, hannounce⟩ := ends_abandon h
  have h₁ : Trace.scenarios t₁ = [] :=
    (Trace.handsOnly_of_handed_nil (Trace.handed_of_offstage hoff)).scenarios
  have h₂ : Trace.scenarios t₂ = [] := (runActs_resultless.skipAll hskip).scenarios
  have h₃ : Trace.scenarios t₃ = [] := by
    cases salvaged with
    | none =>
      obtain ⟨rfl, _⟩ := ends_pure_iff.1 hclean
      rfl
    | some a => exact (resultless_cleanUp (ha a rfl) hclean).scenarios
  simp only [Trace.scenarios_append, h₁, h₂, h₃,
    scenarios_of_records ((ends_announce hannounce).2.2 hx), List.nil_append]

/-- A run that comes to a result hands it over once, and no other result of a scenario. -/
theorem scenarios_run {r : ScenarioResult} (h : (x.run scenario feature id).Runs t (.ok r))
    (hx : x.emits = true) : t.scenarios = [r] := by
  obtain ⟨l', hc⟩ := runs_run_iff.1 h
  have hsetUp : ∀ {u : Trace} {o : Except Fault (Except Broken DispatchTable)} {l₁ : Ledger},
      Ends (x.setUp (.named scenario feature id)) Ledger.empty u o l₁ → u.scenarios = [] :=
    fun hs => (handsOnly_setUp (fun _ _ => rfl) hs).scenarios
  cases caseRun_of_ends hc with
  | abandoned u v b hs ha hk =>
    rw [Trace.scenarios_append, hsetUp hs, List.nil_append]
    exact scenarios_abandon ha hx hk
  | composed u v d hs hd hk =>
    rw [Trace.scenarios_append, hsetUp hs, List.nil_append]
    exact scenarios_runComposed hd hx hk

end Executor
end Rehearsal
