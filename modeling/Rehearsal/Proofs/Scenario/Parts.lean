import Rehearsal.Proofs.Composition
import Rehearsal.Proofs.Scenario.Books

/-! The parts of a run. Contexts are set up or the scenario is abandoned; on contexts the hooks and the
steps run, an interrupt is recovered from, the cleanup runs, and the result is made known. -/

namespace Rehearsal
set_option autoImplicit false

variable {l l' : Ledger} {t : Trace}

namespace Arena
variable {a : Arena} {f : Fault}

theorem family_of_node {id : Int} (h : a.node id = .error f) : f.family = .ordinary := by
  unfold node at h
  split at h <;> cases h
  rfl

/-- An owner without a context is an ordinary fault. -/
theorem family_of_ownerInstance {owner : Option String} (h : a.ownerInstance owner = .error f) :
    f.family = .ordinary := by
  have hinst : ∀ {r : Except Fault Node}, (do return (← r).inst : Except Fault Instance) = .error f →
      r = .error f := by
    intro r hr
    exact (except_bind_eq_error_iff.1 hr).resolve_right fun ⟨_, _, hn⟩ => nomatch hn
  cases owner with
  | none => exact family_of_node (hinst h)
  | some aliasName =>
    rcases except_bind_eq_error_iff.1 (hinst h) with hfind | ⟨id, _, hnode⟩
    · unfold find at hfind
      split at hfind <;> cases hfind
      rfl
    · exact family_of_node hnode

end Arena

theorem DispatchTable.escapes_build {r : Registry} {a : Arena} {f : Fault}
    (h : DispatchTable.build r a = .error f) : Composition.escapes f = false := by
  rcases except_bind_eq_error_iff.1 h with h | ⟨_, _, h⟩
  · obtain ⟨d, _, hd⟩ := exists_of_mapM_eq_error h
    simp [Composition.escapes, Arena.family_of_ownerInstance hd]
  · cases h

/-- Does a record tell of a scenario, other than of a hook of it? -/
def Record.ofScenario : Record → Bool
  | stage _ | step _ | scenario _ => true
  | _ => false

namespace Executor
variable {x : Executor} {c : Case}

/-- What setting up comes to: contexts for every definition, or a failure that leaves contexts with
a root or none. -/
structure SetUp (t : Trace) (r : Except Broken DispatchTable) : Prop where
  fit : ∀ d, r = .ok d → d.Fit
  rooted : ∀ b a, r = .error b → b.salvaged = some a → a.nodes ≠ []
  contained : t.tame = true → ∀ b, r = .error b → Composition.escapes b.fault = false

/-- The first stage is announced, then the contexts are composed and every definition is given its own. -/
theorem composes_of_setUp {o : Except Fault (Except Broken DispatchTable)}
    (h : Ends (x.setUp c) l t o l') :
    l' = l ∧ ∃ u v : Trace, t = u ++ v ∧
      x.Hands (.stage ⟨c.id, .initializing, none, none⟩) u (errorIn o) ∧
      ((∃ f, o = .error f) ∧ v = [] ∨ ∃ q, (compose x.root).Runs v q ∧
        o = .ok (q.bind fun a => (DispatchTable.build x.registry a).mapError fun f => ⟨f, none⟩)) := by
  rcases ends_bind_iff.1 h with ⟨u, v, _, l₁, rfl, hi, hk⟩ | ⟨e, rfl, hi⟩
  · obtain ⟨rfl, hh⟩ := ends_transition hi
    rcases ends_bind_iff.1 hk with ⟨w, w', q, l₂, rfl, hc, hr⟩ | ⟨e, rfl, hc⟩
    · obtain ⟨rfl, _, hq, hcompose⟩ := ends_lift_iff.1 hc
      cases hq
      suffices hend : w' = [] ∧ l' = l₂ ∧
          o = .ok (q.bind fun a => (DispatchTable.build x.registry a).mapError fun f => ⟨f, none⟩) by
        obtain ⟨rfl, rfl, rfl⟩ := hend
        rw [List.append_nil]
        exact ⟨rfl, u, w, rfl, hh, .inr ⟨q, hcompose, rfl⟩⟩
      rcases q with b | a
      · obtain ⟨rfl, rfl, rfl⟩ := ends_pure_iff.1 hr
        exact ⟨rfl, rfl, rfl⟩
      · dsimp only at hr
        split at hr
        · rename_i f hf
          obtain ⟨rfl, rfl, rfl⟩ := ends_pure_iff.1 hr
          exact ⟨rfl, rfl, by rw [Except.bind, hf]; rfl⟩
        · rename_i d hd
          obtain ⟨rfl, rfl, rfl⟩ := ends_pure_iff.1 hr
          exact ⟨rfl, rfl, by rw [Except.bind, hd]; rfl⟩
    · obtain ⟨_, r', hr', _⟩ := ends_lift_iff.1 hc
      cases hr'
  · obtain ⟨rfl, hh⟩ := ends_transition hi
    exact ⟨rfl, t, [], (List.append_nil t).symm, hh, .inl ⟨⟨e, rfl⟩, rfl⟩⟩

/-- The first stage is announced, and nothing is seen of the composition that follows. -/
theorem ends_setUp {o : Except Fault (Except Broken DispatchTable)}
    (h : Ends (x.setUp c) l t o l') :
    l' = l ∧ ∃ u v : Trace, t = u ++ v ∧ v.offstage = true ∧
      x.Hands (.stage ⟨c.id, .initializing, none, none⟩) u (errorIn o) ∧
      ∀ r, o = .ok r → SetUp t r := by
  obtain ⟨rfl, u, v, rfl, hh, ⟨⟨f, rfl⟩, rfl⟩ | ⟨q, hc, rfl⟩⟩ := composes_of_setUp h
  · exact ⟨rfl, u, [], rfl, rfl, hh, nofun⟩
  have hcomp := composed_compose hc
  refine ⟨rfl, u, v, rfl, hcomp.offstage, hh, ?_⟩
  rintro r hr
  cases hr
  rcases q with b | a
  · refine ⟨nofun, ?_, ?_⟩
    · intro b' a hb
      cases hb
      exact hcomp.salvaged b a rfl
    · intro ht b' hb
      cases hb
      rw [Trace.tame_append, Bool.and_eq_true] at ht
      exact hcomp.contained ht.2 b rfl
  · rw [Except.bind]
    cases hd : DispatchTable.build x.registry a with
    | ok d =>
      refine ⟨?_, nofun, nofun⟩
      intro d' hd'
      cases hd'
      exact DispatchTable.fit_of_build (hcomp.rooted a rfl) hd
    | error f =>
      refine ⟨nofun, ?_, ?_⟩
      · intro b a hb ha
        cases hb
        cases ha
      · intro _ b hb
        cases hb
        exact DispatchTable.escapes_build hd

/-- Nothing is called, no result of a hook or a step is handed over, and the ledger stays. -/
def Quiet (l : Ledger) (t : Trace) (_ : Option Fault) (l' : Ledger) : Prop :=
  l' = l ∧ t.calls = [] ∧ t.hooks = [] ∧ t.steps = []

theorem sequential_quiet : Sequential Quiet where
  refl _ := ⟨rfl, rfl, rfl, rfl⟩
  trans := by
    rintro s s₁ s₂ t u e ⟨rfl, ht⟩ ⟨rfl, hu⟩
    simp [Quiet, ht, hu]

theorem quiet_of_offstage {e : Option Fault} (ht : t.offstage = true) : Quiet l t e l := by
  simp [Quiet, Trace.calls_of_offstage ht, Trace.hooks, Trace.steps, Trace.records,
    Trace.handed_of_offstage ht]

theorem quiet_emit {r : Record} (hh : r.hook? = none) (hs : r.step? = none) :
    Upholds Quiet (x.emit r) := by
  intro l t o l' h
  obtain ⟨rfl, hx⟩ := ends_emit h
  generalize errorIn o = e at hx ⊢
  cases hx with
  | silent _ => exact ⟨rfl, rfl, rfl, rfl⟩
  | loud e m _ =>
    exact ⟨rfl, rfl, by simp [Trace.hooks, Trace.records, Trace.handed, Moment.handed?, hh],
      by simp [Trace.steps, Trace.records, Trace.handed, Moment.handed?, hs]⟩

theorem onlyCutBySink_emit {p : Prop} {r : Record} : Upholds (x.OnlyCutBySink p) (x.emit r) :=
  fun _ _ _ _ h _ _ => cutBy_of_hands (ends_emit h).2

theorem ends_warn {r : ScenarioResult} {o : Except Fault Unit} (h : Ends (x.warn c r) l t o l') :
    l' = l ∧ t.offstage = true ∧ (t.tame = true → o = .ok ()) := by
  rw [warn] at h
  split at h
  · exact Effect.ends_log h
  · obtain ⟨rfl, rfl, rfl⟩ := ends_pure_iff.1 h
    exact ⟨rfl, rfl, fun _ => rfl⟩

/-- A relation in which all that makes a result known stands. -/
structure ClosingActs (x : Executor) (K : Ledger → Trace → Option Fault → Ledger → Prop) : Prop
    extends Sequential K where
  offstage : ∀ {l t e}, t.offstage = true → (t.tame = true → e = none) → K l t e l
  stage : ∀ e, Upholds K (x.emit (.stage e))
  scenario : ∀ r, Upholds K (x.emit (.scenario r))

theorem closingActs_quiet : ClosingActs x Quiet where
  toSequential := sequential_quiet
  offstage ht _ := quiet_of_offstage ht
  stage _ := quiet_emit rfl rfl
  scenario _ := quiet_emit rfl rfl

theorem closingActs_onlyCutBySink {p : Prop} : ClosingActs x (x.OnlyCutBySink p) where
  toSequential := sequential_onlyCutBySink
  offstage := onlyCutBySink_of_offstage
  stage _ := onlyCutBySink_emit
  scenario _ := onlyCutBySink_emit

theorem closingActs_entered : ClosingActs x x.Entered where
  toSequential := sequential_entered
  offstage ht _ _ := (Ledger.enter_of_offstage _ ht).symm
  stage e := by
    intro l t o l' h
    obtain ⟨rfl, hx⟩ := ends_emit h
    simpa [Record.step?, Record.hook?] using entered_of_hands hx
  scenario r := by
    intro l t o l' h
    obtain ⟨rfl, hx⟩ := ends_emit h
    simpa [Record.step?, Record.hook?] using entered_of_hands hx

namespace ClosingActs
variable {K : Ledger → Trace → Option Fault → Ledger → Prop} (A : ClosingActs x K)
include A

theorem announce {stage : Stage} : Upholds K (x.announce c stage) := by
  apply upholds_bind A.toSequential (upholds_get A.toSequential)
  intro _
  apply upholds_bind A.toSequential (A.stage _)
  intro _
  exact upholds_bind A.toSequential (A.scenario _) fun _ => upholds_pure A.toSequential _

theorem warn {r : ScenarioResult} : Upholds K (x.warn c r) := by
  intro l t o l' h
  obtain ⟨rfl, ht, ho⟩ := ends_warn h
  exact A.offstage ht fun hm => by rw [ho hm, errorIn_ok]

theorem conclude : Upholds K (x.conclude c) := by
  refine upholds_bind A.toSequential ?_ fun _ => ?_
  · intro l t o l' h
    obtain ⟨rfl, ht, b, rfl, _⟩ := Executor.ends_stopped h
    exact A.offstage ht fun _ => rfl
  · refine upholds_bind A.toSequential A.announce fun _ => ?_
    exact upholds_bind A.toSequential A.warn fun _ => upholds_pure A.toSequential _

end ClosingActs

/-- A result is made known by the stage it is left in and by its own record. -/
theorem hands_announce {stage : Stage} {r : ScenarioResult}
    (h : Ends (x.announce c stage) l t (.ok r) l') :
    l' = l ∧ r = c.result l stage ∧ ∃ u v, t = u ++ v ∧
      x.Hands (.stage ⟨c.id, stage, none, none⟩) u none ∧ x.Hands (.scenario r) v none := by
  rw [announce, ends_get_bind_iff] at h
  obtain ⟨u, v, _, l₁, rfl, hs, hk⟩ := ends_bind_ok_iff.1 h
  obtain ⟨rfl, hu⟩ := ends_transition hs
  obtain ⟨_, rfl, he⟩ := ends_bind_pure_ok_iff.1 hk
  obtain ⟨rfl, hv⟩ := ends_emit he
  exact ⟨rfl, rfl, u, v, rfl, hu, hv⟩

theorem ends_announce {stage : Stage} {r : ScenarioResult}
    (h : Ends (x.announce c stage) l t (.ok r) l') :
    l' = l ∧ r = c.result l stage ∧
      (x.emits = true → t.records = [.stage ⟨c.id, stage, none, none⟩, .scenario r]) := by
  obtain ⟨hl, hr, u, v, rfl, hu, hv⟩ := hands_announce h
  exact ⟨hl, hr, fun hx => by simp [hu.records hx, hv.records hx]⟩

/-- A run is concluded by making its result known, at a stage that says whether it was to stop. -/
theorem parts_of_conclude {r : ScenarioResult} (h : Ends (x.conclude c) l t (.ok r) l') :
    ∃ stop u v w, t = u ++ (v ++ w) ∧ Ends x.stopped l u (.ok stop) l ∧
      Ends (x.announce c (if stop then .aborted else .finalized)) l v (.ok r) l ∧
      Trace.offstage w = true := by
  obtain ⟨u, _, stop, l₁, rfl, hstop, h₁⟩ := ends_bind_ok_iff.1 h
  obtain ⟨v, w, _, l₂, rfl, hannounce, h₂⟩ := ends_bind_ok_iff.1 h₁
  obtain ⟨_, rfl, hwarn⟩ := ends_bind_pure_ok_iff.1 h₂
  obtain rfl := (ends_stopped hstop).1
  obtain rfl := (ends_announce hannounce).1
  exact ⟨stop, u, v, w, rfl, hstop, hannounce, (ends_warn hwarn).2.1⟩

theorem ends_conclude {r : ScenarioResult} (h : Ends (x.conclude c) l t (.ok r) l') :
    ∃ stage, r = c.result l stage ∧
      (x.emits = true → t.records = [.stage ⟨c.id, stage, none, none⟩, .scenario r]) ∧
      ∀ requested, t.heeds requested = true →
        stage = if x.Stopping l requested then .aborted else .finalized := by
  obtain ⟨b, u, w, v, rfl, hs, ha, hv⟩ := parts_of_conclude h
  obtain ⟨_, hu, _, hb, hstop⟩ := ends_stopped hs
  cases hb
  obtain ⟨_, rfl, hrec⟩ := ends_announce ha
  refine ⟨_, rfl, fun hx => ?_, fun requested ht => ?_⟩
  · simp [hrec hx, Trace.records_of_offstage hu, Trace.records_of_offstage hv]
  · rw [Trace.heeds_append, Bool.and_eq_true] at ht
    rw [(hstop requested ht.1).1]

theorem ends_recover {r : Except Fault Unit} {o : Except Fault (Except Fault Unit)}
    (h : Ends (x.recover c r) l t o l') :
    ∃ r', o = .ok r' ∧
      (t = [] ∧ r' = r ∧ l' = l ∧ (∀ f, r = .error f → f.family ≠ .interrupt) ∨
        ∃ f, r = .error f ∧ f.family = .interrupt ∧
          ((∃ u v l₁, t = u ++ v ∧ Ends (x.interrupt c "executor") l u (.ok ()) l₁ ∧
            Ends (x.skipRemaining c) l₁ v r' l') ∨
          ∃ g, r' = .error g ∧ Ends (x.interrupt c "executor") l t (.error g) l')) := by
  cases r with
  | ok _ =>
    obtain ⟨rfl, rfl, rfl⟩ := ends_pure_iff.1 h
    exact ⟨_, rfl, .inl ⟨rfl, rfl, rfl, nofun⟩⟩
  | error f =>
    rw [recover] at h
    split at h
    · rename_i hf
      have hf : f.family = .interrupt := eq_of_beq hf
      obtain ⟨r', rfl, hx⟩ := Effect.ends_observe_iff.1 h
      refine ⟨r', rfl, .inr ⟨f, rfl, hf, ?_⟩⟩
      rcases ends_bind_iff.1 hx with ⟨u, v, _, l₁, rfl, hi, hs⟩ | ⟨g, rfl, hi⟩
      · exact .inl ⟨u, v, l₁, rfl, hi, hs⟩
      · exact .inr ⟨g, rfl, hi⟩
    · rename_i hf
      obtain ⟨rfl, rfl, rfl⟩ := ends_pure_iff.1 h
      refine ⟨_, rfl, .inl ⟨rfl, rfl, rfl, ?_⟩⟩
      rintro g hg
      cases hg
      exact fun hi => hf (beq_iff_eq.2 hi)

/-- How a run proceeds to its steps. The sink refuses the stage of the hooks, or the hooks are cut short,
or the steps follow them. -/
inductive ProceedRun (x : Executor) (c : Case) (d : DispatchTable) (l : Ledger) :
    Trace → Except Fault Unit → Ledger → Prop where
  | refused (t : Trace) {f : Fault} :
      Ends (x.transition c .runningBeforeHooks none) l t (.error f) l → ProceedRun x c d l t (.error f) l
  | halted (u v : Trace) {f : Fault} {l' : Ledger} :
      Ends (x.transition c .runningBeforeHooks none) l u (.ok ()) l →
      Ends (x.runHooks .beforeScenario c d.arena (.scenario (c.scope none)) true) l v (.error f) l' →
      ProceedRun x c d l (u ++ v) (.error f) l'
  | proceeded (u v w : Trace) {ready : Bool} {o : Except Fault Unit} {l₁ l' : Ledger} :
      Ends (x.transition c .runningBeforeHooks none) l u (.ok ()) l →
      Ends (x.runHooks .beforeScenario c d.arena (.scenario (c.scope none)) true) l v (.ok ready) l₁ →
      Ends (x.runSteps c d 0 (!ready) c.scenario.steps) l₁ w o l' → ProceedRun x c d l (u ++ (v ++ w)) o l'

theorem proceedRun_of_ends {d : DispatchTable} {o : Except Fault Unit}
    (h : Ends (x.proceedThrough c d) l t o l') : x.ProceedRun c d l t o l' := by
  rcases ends_bind_iff.1 h with ⟨u, _, _, l₁, rfl, hstage, hk⟩ | ⟨f, rfl, hstage⟩
  swap
  · obtain rfl := (ends_transition hstage).1
    exact .refused t hstage
  obtain rfl := (ends_transition hstage).1
  rcases ends_bind_iff.1 hk with ⟨v, w, ready, l₂, rfl, hhooks, hsteps⟩ | ⟨f, rfl, hhooks⟩
  · exact .proceeded u v w hstage hhooks hsteps
  · exact .halted u _ hstage hhooks

/-- How a run on contexts is put together: the cleanup comes whatever came before it. -/
theorem ends_runComposed {d : DispatchTable} {o : Except Fault ScenarioResult}
    (h : Ends (x.runComposed c d) l t o l') :
    ∃ (t₁ t₂ t₃ t₄ : Trace) (r₁ r₂ r₃ : Except Fault Unit) (l₁ l₂ l₃ : Ledger),
      t = t₁ ++ (t₂ ++ (t₃ ++ t₄)) ∧ Ends (x.proceedThrough c d) l t₁ r₁ l₁ ∧
      Ends (x.recover c r₁) l₁ t₂ (.ok r₂) l₂ ∧ Ends (x.cleanUp c d.arena) l₂ t₃ r₃ l₃ ∧
      (r₂ = .ok () ∧ r₃ = .ok () ∧ Ends (x.conclude c) l₃ t₄ o l' ∨
        t₄ = [] ∧ l' = l₃ ∧ ∃ f, o = .error f ∧ (r₃ = .error f ∨ r₃ = .ok () ∧ r₂ = .error f)) := by
  obtain ⟨t₁, u, r₁, l₁, rfl, hp, h⟩ := Effect.ends_observe_bind_iff.1 h
  rcases ends_bind_iff.1 h with ⟨t₂, u, r₂, l₂, rfl, hr, h⟩ | ⟨e, rfl, hr⟩
  · rcases ends_bind_iff.1 h with ⟨t₃, t₄, _, l₃, rfl, hc, h⟩ | ⟨e, rfl, hc⟩
    · refine ⟨t₁, t₂, t₃, t₄, r₁, r₂, .ok (), l₁, l₂, l₃, rfl, hp, hr, hc, ?_⟩
      rcases Effect.ends_settle_bind_iff.1 h with ⟨_, rfl, h⟩ | ⟨e, rfl, rfl, rfl, rfl⟩
      · exact .inl ⟨rfl, rfl, h⟩
      · exact .inr ⟨rfl, rfl, e, rfl, .inr ⟨rfl, rfl⟩⟩
    · refine ⟨t₁, t₂, u, [], r₁, r₂, .error e, l₁, l₂, l', by rw [List.append_nil], hp, hr, hc, ?_⟩
      exact .inr ⟨rfl, rfl, e, rfl, .inl rfl⟩
  · obtain ⟨_, hr, _⟩ := ends_recover hr
    cases hr

/-- A run on contexts that comes to a result was recovered where it had to be, and cleaned up. -/
theorem parts_of_runComposed {d : DispatchTable} {r : ScenarioResult}
    (h : Ends (x.runComposed c d) l t (.ok r) l') :
    ∃ (t₁ t₂ t₃ t₄ : Trace) (r₁ : Except Fault Unit) (l₁ l₂ l₃ : Ledger),
      t = t₁ ++ (t₂ ++ (t₃ ++ t₄)) ∧ Ends (x.proceedThrough c d) l t₁ r₁ l₁ ∧
      Ends (x.recover c r₁) l₁ t₂ (.ok (.ok ())) l₂ ∧ Ends (x.cleanUp c d.arena) l₂ t₃ (.ok ()) l₃ ∧
      Ends (x.conclude c) l₃ t₄ (.ok r) l' := by
  obtain ⟨t₁, t₂, t₃, t₄, r₁, _, _, l₁, l₂, l₃, rfl, hproceed, hrecover, hclean, hend⟩ :=
    ends_runComposed h
  obtain ⟨rfl, rfl, hconclude⟩ := hend.resolve_right fun hcut => nomatch hcut.2.2
  exact ⟨t₁, t₂, t₃, t₄, r₁, l₁, l₂, l₃, rfl, hproceed, hrecover, hclean, hconclude⟩

theorem entered_recover {r : Except Fault Unit} {o : Except Fault (Except Fault Unit)}
    (he : x.emits = true) (h : Ends (x.recover c r) l t o l') :
    ∃ hit, l' = (l.enter t).strike hit := by
  obtain ⟨r', _, ⟨rfl, _, rfl, _⟩ | ⟨f, _, _, ⟨u, v, l₁, rfl, hi, hs⟩ | ⟨g, _, hi⟩⟩⟩ := ends_recover h
  · exact ⟨false, by rw [Ledger.strike_false, Ledger.enter_of_offstage _ rfl]⟩
  · obtain ⟨rfl, hu, _⟩ := ends_interrupt hi
    refine ⟨true, ?_⟩
    rw [runActs_entered.skipRemaining hs he, Ledger.enter_strike, Ledger.enter_append,
      Ledger.enter_of_offstage _ hu]
  · obtain ⟨rfl, ht, _⟩ := ends_interrupt hi
    exact ⟨true, by rw [Ledger.enter_of_offstage _ ht]⟩

/-- The result tells what was handed over in the run. -/
theorem entered_runComposed {d : DispatchTable} {r : ScenarioResult} (hd : d.Fit)
    (he : x.emits = true) (h : Ends (x.runComposed c d) l t (.ok r) l') :
    ∃ hit stage, r = c.result ((l.enter t).strike hit) stage := by
  obtain ⟨t₁, t₂, t₃, t₄, r₁, l₁, l₂, l₃, rfl, hproceed, hrecover, hclean, hconclude⟩ :=
    parts_of_runComposed h
  have h₁ := runActs_entered.proceedThrough hd hproceed he
  obtain ⟨hit, h₂⟩ := entered_recover he hrecover
  have h₃ := entered_cleanUp hd.rooted hclean he
  obtain rfl : l' = l₃ := (closingActs_quiet.conclude hconclude).1
  have h₄ : l' = l'.enter t₄ := closingActs_entered.conclude hconclude he
  obtain ⟨stage, rfl, _⟩ := ends_conclude hconclude
  refine ⟨hit, stage, ?_⟩
  rw [h₄, h₃, h₂, h₁]
  simp only [Ledger.enter_append, Ledger.enter_strike]

/-- A case is run on its contexts, or abandoned if there is no interrupt to hand on. -/
theorem ends_runCase {o : Except Fault ScenarioResult} (h : Ends (x.runCase c) l t o l') :
    (∃ f, o = .error f ∧ Ends (x.setUp c) l t (.error f) l') ∨
      ∃ (u v : Trace) (r : Except Broken DispatchTable), t = u ++ v ∧
        Ends (x.setUp c) l u (.ok r) l ∧
        match r with
        | .ok d => Ends (x.runComposed c d) l v o l'
        | .error b =>
          if Composition.escapes b.fault then v = [] ∧ o = .error b.fault ∧ l' = l
          else Ends (x.abandon c b.fault b.salvaged) l v o l' := by
  rcases ends_bind_iff.1 h with ⟨u, v, r, l₁, rfl, hs, hk⟩ | ⟨f, rfl, hs⟩
  · obtain ⟨rfl, _⟩ := ends_setUp hs
    refine .inr ⟨u, v, r, rfl, hs, ?_⟩
    rcases r with b | d
    · dsimp only at hk ⊢
      split at hk
      · rename_i he
        rw [if_pos he]
        exact ends_throw_iff.1 hk
      · rename_i he
        rw [if_neg he]
        exact hk
    · exact hk
  · exact .inl ⟨f, rfl, hs⟩

theorem contained_of_setUp {b : Broken} (h : Ends (x.setUp c) l t (.ok (.error b)) l')
    (ht : t.tame = true) : Composition.escapes b.fault = false := by
  obtain ⟨_, _, _, _, _, _, hsetup⟩ := ends_setUp h
  exact (hsetup _ rfl).contained ht b rfl

/-- How a case is run. It ends while it is set up, or it is abandoned, or it is run on its contexts. -/
inductive CaseRun (x : Executor) (c : Case) (l : Ledger) :
    Trace → Except Fault ScenarioResult → Ledger → Prop where
  | refused (t : Trace) {f : Fault} {l' : Ledger} : Ends (x.setUp c) l t (.error f) l' →
      CaseRun x c l t (.error f) l'
  | escaped (t : Trace) {b : Broken} : Ends (x.setUp c) l t (.ok (.error b)) l →
      Composition.escapes b.fault = true → CaseRun x c l t (.error b.fault) l
  | abandoned (u v : Trace) (b : Broken) {o : Except Fault ScenarioResult} {l' : Ledger} :
      Ends (x.setUp c) l u (.ok (.error b)) l → (∀ a, b.salvaged = some a → a.nodes ≠ []) →
      Ends (x.abandon c b.fault b.salvaged) l v o l' → CaseRun x c l (u ++ v) o l'
  | composed (u v : Trace) (d : DispatchTable) {o : Except Fault ScenarioResult} {l' : Ledger} :
      Ends (x.setUp c) l u (.ok (.ok d)) l → d.Fit → Ends (x.runComposed c d) l v o l' →
      CaseRun x c l (u ++ v) o l'

theorem caseRun_of_ends {o : Except Fault ScenarioResult} (h : Ends (x.runCase c) l t o l') :
    x.CaseRun c l t o l' := by
  rcases ends_runCase h with ⟨f, rfl, hs⟩ | ⟨u, v, r, rfl, hs, hk⟩
  · exact .refused t hs
  · obtain ⟨_, _, _, _, _, _, hsetup⟩ := ends_setUp hs
    rcases r with b | d
    · dsimp only at hk
      split at hk
      · rename_i he
        obtain ⟨rfl, rfl, rfl⟩ := hk
        rw [List.append_nil]
        exact .escaped u hs he
      · exact .abandoned u v b hs (fun a => (hsetup _ rfl).rooted b a rfl) hk
    · exact .composed u v d hs ((hsetup _ rfl).fit d rfl) hk

/-- What comes after setting up is all that is left of a trace. -/
theorem ends_after_setUp {u v : Trace} {r : Except Broken DispatchTable} {l₁ : Ledger}
    {o : Except Fault ScenarioResult} (hs : Ends (x.setUp c) l u (.ok r) l₁)
    (h : Ends (x.runCase c) l (u ++ v) o l') :
    (∀ d, r = .ok d → Ends (x.runComposed c d) l v o l') ∧
      ∀ b, r = .error b → Composition.escapes b.fault = false →
        Ends (x.abandon c b.fault b.salvaged) l v o l' := by
  rcases ends_runCase h with ⟨f, rfl, hs'⟩ | ⟨u', v', r', he, hs', hk⟩
  · obtain ⟨_, hr⟩ := Program.Runs.unique hs hs' (List.append_nil _).symm
    exact nomatch congrArg Prod.fst hr
  · obtain ⟨rfl, hr⟩ := Program.Runs.unique hs hs' he
    cases hr
    obtain rfl := List.append_cancel_left he
    constructor
    · rintro d rfl
      exact hk
    · rintro b rfl hb
      dsimp only at hk
      rwa [hb, if_neg Bool.false_ne_true] at hk

theorem runs_run_iff {scenario : Scenario} {feature : Option Feature} {id : Option String}
    {o : Except Fault ScenarioResult} :
    (x.run scenario feature id).Runs t o ↔
      ∃ l', Ends (x.runCase (.named scenario feature id)) Ledger.empty t o l' := by
  rw [run, Program.runs_bind_iff]
  constructor
  · rintro ⟨u, v, ⟨r, l'⟩, rfl, hc, hd⟩
    obtain ⟨rfl, rfl⟩ := Program.runs_done_iff.1 hd
    rw [List.append_nil]
    exact ⟨l', hc⟩
  · rintro ⟨l', h⟩
    exact ⟨t, [], (o, l'), (List.append_nil t).symm, h, .done o⟩

theorem quiet_setUp {o : Except Fault (Except Broken DispatchTable)}
    (h : Ends (x.setUp c) l t o l') : Quiet l t (errorIn o) l' := by
  obtain ⟨rfl, u, v, rfl, hv, hu, _⟩ := ends_setUp h
  have hq : Quiet l' u none l' := by
    generalize errorIn o = e at hu
    cases hu with
    | silent _ => exact ⟨rfl, rfl, rfl, rfl⟩
    | loud e m _ => exact ⟨rfl, rfl, rfl, rfl⟩
  exact sequential_quiet.trans hq (quiet_of_offstage hv)

theorem noticed_setUp {o : Except Fault (Except Broken DispatchTable)}
    (h : Ends (x.setUp c) l t o l') : Noticed l t none l' := by
  obtain ⟨rfl, u, v, rfl, hv, hu, _⟩ := ends_setUp h
  have hquiet : Noticed l' v none l' :=
    (runActs_noticed (x := x) (c := c)).offstage hv fun _ => rfl
  have hfirst : Noticed l' u (errorIn o) l' := noticed_of_hands hu rfl
  exact (runActs_noticed (x := x) (c := c)).trans hfirst hquiet

theorem onlyCutBySink_cleanUpSalvaged {salvaged : Option Arena}
    (ha : ∀ a, salvaged = some a → a.nodes ≠ []) :
    Upholds (x.OnlyCutBySink (x.Orderly c)) (x.cleanUpSalvaged c salvaged) :=
  acts_onlyCutBySink.cleanUpSalvaged ha trivial (onlyCutBySink_stage _ _) fun _ _ => trivial

theorem upholds_abandon {L : Trace → Option Fault → Prop} {cause : Fault} {salvaged : Option Arena}
    (hL : Sequential fun (_ : Ledger) t e (_ : Ledger) => L t e)
    (hlog : ∀ level message fields, Upholds (fun _ t e _ => L t e) (x.log level message fields))
    (hskip : Upholds (fun _ t e _ => L t e) (x.skipAll c 0 c.scenario.steps))
    (hclean : Upholds (fun _ t e _ => L t e) (x.cleanUpSalvaged c salvaged))
    (hannounce : Upholds (fun _ t e _ => L t e) (x.announce c .aborted)) :
    Upholds (fun _ t e _ => L t e) (x.abandon c cause salvaged) := by
  refine upholds_bind hL (hlog _ _ _) fun _ => ?_
  intro l t o l' h
  rw [ends_modify_bind_iff] at h
  have hrest : Upholds (fun _ t e _ => L t e) (do
      x.skipAll c 0 c.scenario.steps
      x.cleanUpSalvaged c salvaged
      x.announce c .aborted) := by
    refine upholds_bind hL hskip fun _ => ?_
    exact upholds_bind hL hclean fun _ => hannounce
  exact hrest h

/-- The error of a scenario whose contexts could not be set up. -/
def setUpError (x : Executor) (c : Case) (cause : Fault) : ErrorInfo :=
  .ofFault (.setup c.scenario.name cause) "compose" x.policy.captureStack

/-- A scenario that is abandoned with a result: the cause is noted, the steps are skipped, what was
built is cleaned up, and the result is announced as aborted. -/
theorem ends_abandon {cause : Fault} {salvaged : Option Arena} {r : ScenarioResult}
    (h : Ends (x.abandon c cause salvaged) l t (.ok r) l') :
    ∃ (u v w z : Trace) (l₁ l₂ : Ledger), t = u ++ (v ++ (w ++ z)) ∧ u.offstage = true ∧
      Ends (x.skipAll c 0 c.scenario.steps) (l.noteError (some (x.setUpError c cause))) v (.ok ()) l₁ ∧
      Ends (x.cleanUpSalvaged c salvaged) l₁ w (.ok ()) l₂ ∧
      Ends (x.announce c .aborted) l₂ z (.ok r) l' := by
  obtain ⟨u, v, _, l₀, rfl, hlog, h⟩ := ends_bind_ok_iff.1 h
  rw [ends_modify_bind_iff] at h
  obtain ⟨v, w, _, l₁, rfl, hskip, h⟩ := ends_bind_ok_iff.1 h
  obtain ⟨w, z, _, l₂, rfl, hclean, hannounce⟩ := ends_bind_ok_iff.1 h
  obtain ⟨rfl, hu, _⟩ := Effect.ends_log hlog
  exact ⟨u, v, w, z, l₁, l₂, rfl, hu, hskip, hclean, hannounce⟩

/-- A property of traces that every act has that neither calls anything nor hands over the result of a
hook. -/
structure Silent (x : Executor) (L : Trace → Prop) : Prop where
  append : ∀ {t u : Trace}, L t → L u → L (t ++ u)
  aside : ∀ {t : Trace}, t.offstage = true → L t
  hands : ∀ {r : Record} {t : Trace} {e : Option Fault}, r.ofScenario = true → x.Hands r t e → L t

namespace Silent
variable {L : Trace → Prop} (S : Silent x L)
include S

theorem sequential : Sequential fun (_ : Ledger) t (_ : Option Fault) (_ : Ledger) => L t where
  refl _ := S.aside rfl
  trans := S.append

theorem transition {stage : Stage} {index : Option Int} :
    Upholds (fun _ t _ _ => L t) (x.transition c stage index) :=
  fun _ _ _ _ h => S.hands rfl (ends_transition h).2

theorem recordStep {r : StepResult} : Upholds (fun _ t _ _ => L t) (x.recordStep r) :=
  fun _ _ _ _ h => S.hands rfl (ends_recordStep h).2

theorem skipAll {index : Nat} {ss : List Step} :
    Upholds (fun _ t _ _ => L t) (x.skipAll c index ss) :=
  upholds_skipAll S.sequential fun _ _ => S.recordStep

theorem closing : ClosingActs x (fun _ t _ _ => L t) where
  toSequential := S.sequential
  offstage ht _ := S.aside ht
  stage _ _ _ _ _ h := S.hands rfl (ends_emit h).2
  scenario _ _ _ _ _ h := S.hands rfl (ends_emit h).2

theorem setUp : Upholds (fun _ t _ _ => L t) (x.setUp c) := by
  intro l t o l' h
  obtain ⟨_, u, v, rfl, hv, hu, _⟩ := ends_setUp h
  exact S.append (S.hands rfl hu) (S.aside hv)

theorem recover {r : Except Fault Unit} : Upholds (fun _ t _ _ => L t) (x.recover c r) := by
  intro l t o l' h
  obtain ⟨_, _, ⟨rfl, _⟩ | ⟨f, _, _, ⟨u, v, l₁, rfl, hi, hs⟩ | ⟨_, _, hi⟩⟩⟩ := ends_recover h
  · exact S.aside rfl
  · rw [skipRemaining, ends_get_bind_iff] at hs
    exact S.append (S.aside (ends_interrupt hi).2.1) (S.skipAll hs)
  · exact S.aside (ends_interrupt hi).2.1

end Silent

/-- A property of traces that every act of a whole run has. -/
structure TraceActs (x : Executor) (c : Case) (L : Trace → Prop) (C : List Argument → Prop)
    (P : HookPhase → Prop) : Prop extends RunActs x c (fun _ t _ _ => L t) C P where
  silent : Silent x L
  admitsCleanup : ∀ v r, C [.value v, .scope (.scenario (c.scope (some r)))]
  afterScenario : P .afterScenario

namespace TraceActs
variable {L : Trace → Prop} {C : List Argument → Prop} {P : HookPhase → Prop}
  (A : TraceActs x c L C P)
include A

theorem cleaned {a : Arena} (ha : a.nodes ≠ []) : Upholds (fun _ t _ _ => L t) (x.cleanUp c a) :=
  A.cleanUp ha A.afterScenario A.silent.transition A.admitsCleanup

theorem runComposed {d : DispatchTable} (hd : d.Fit) :
    Upholds (fun _ t _ _ => L t) (x.runComposed c d) := by
  intro l t o l' h
  obtain ⟨t₁, t₂, t₃, t₄, r₁, r₂, r₃, l₁, l₂, l₃, rfl, hproceed, hrecover, hclean, hend⟩ :=
    ends_runComposed h
  refine A.silent.append (A.proceedThrough hd hproceed) ?_
  refine A.silent.append (A.silent.recover hrecover) ?_
  refine A.silent.append (A.cleaned hd.rooted hclean) ?_
  rcases hend with ⟨_, _, hconclude⟩ | ⟨rfl, _⟩
  · exact A.silent.closing.conclude hconclude
  · exact A.silent.aside rfl

theorem abandon {cause : Fault} {salvaged : Option Arena}
    (ha : ∀ a, salvaged = some a → a.nodes ≠ []) :
    Upholds (fun _ t _ _ => L t) (x.abandon c cause salvaged) := by
  refine upholds_abandon (L := fun t _ => L t) A.toSequential (fun level message fields => ?_)
    A.skipAll ?_ A.silent.closing.announce
  · intro l t o l' h
    exact A.silent.aside (Effect.ends_log h).2.1
  · cases salvaged with
    | none => exact upholds_pure A.toSequential _
    | some a => exact A.cleaned (ha a rfl)

theorem runCase : Upholds (fun _ t _ _ => L t) (x.runCase c) := by
  intro l t o l' h
  cases caseRun_of_ends h with
  | refused t hs => exact A.silent.setUp hs
  | escaped t hs _ => exact A.silent.setUp hs
  | abandoned u v b hs ha hk => exact A.silent.append (A.silent.setUp hs) (A.abandon ha hk)
  | composed u v d hs hd hk => exact A.silent.append (A.silent.setUp hs) (A.runComposed hd hk)

end TraceActs

/-- In the run that a trace tells of, the contexts of a case were set up. -/
def Prepared (x : Executor) (c : Case) (t : Trace) (d : DispatchTable) : Prop :=
  ∃ u v l, t = u ++ v ∧ Ends (x.setUp c) Ledger.empty u (.ok (.ok d)) l

theorem Prepared.ends {d : DispatchTable} {o : Except Fault ScenarioResult}
    (hp : x.Prepared c t d) (h : Ends (x.runCase c) Ledger.empty t o l') :
    d.Fit ∧ ∃ u v : Trace, t = u ++ v ∧
      Ends (x.setUp c) Ledger.empty u (.ok (.ok d)) Ledger.empty ∧
      Ends (x.runComposed c d) Ledger.empty v o l' := by
  obtain ⟨u, v, l, rfl, hs⟩ := hp
  obtain ⟨rfl, _, _, _, _, _, hfit⟩ := ends_setUp hs
  exact ⟨(hfit _ rfl).fit d rfl, u, v, rfl, hs, (ends_after_setUp hs h).1 d rfl⟩

end Executor
end Rehearsal
