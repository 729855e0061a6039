import Rehearsal.Proofs.Hooks
import Rehearsal.Proofs.Surroundings

/-! The hooks after a scenario. Whatever happened before, the cleanup is entered once, and it calls the
hooks that are due in the order of registration. It hands records over itself, however, and what is
due is left undone from the first of them that the sink refuses. -/

namespace Rehearsal
set_option autoImplicit false

namespace Record

def isCleanupResult : Record → Bool
  | hook r => r.phase == .afterScenario
  | _ => false

def ofCleanup (r : Record) : Bool := r.announces .runningAfterHooks || r.isCleanupResult

end Record

/-- Hooks after a scenario, and no others, are shown a result of it. -/
def Call.cleansUp (k : Call) : Bool :=
  k.args.any fun
    | .scope (.scenario s) => s.result.isSome
    | _ => false

/-- Nothing of the cleanup is seen at the moment. -/
def Moment.isEarly : Moment Request.Answer Bool → Bool
  | ⟨.call c args, _, _⟩ => !Call.cleansUp ⟨c, args⟩
  | ⟨.emit r, _, _⟩ => !r.ofCleanup
  | _ => true

def Trace.early (t : Trace) : Bool := t.all Moment.isEarly

/-- Once the cleanup was announced, a refusal of the sink comes after `n` results of it at least. -/
def Trace.SparesCleanup (t : Trace) (n : Nat) : Prop :=
  ∀ before r f after, t.handed = before ++ (r, some f) :: after →
    (∃ p ∈ before ++ [(r, some f)], p.1.announces .runningAfterHooks = true) →
      n ≤ ((before ++ [(r, some f)]).countP fun p => p.1.isCleanupResult)

namespace Executor
variable {x : Executor} {c : Case} {l l' : Ledger} {t : Trace}

def due (x : Executor) (c : Case) (a : Arena) : List Hook :=
  match x.registry.lookup .afterScenario (some c.tags) with
  | .ok hooks => hooks.filter fun h => a.binds h.owner
  | .error _ => []

def IsCallOf (a : Arena) (scope : Scope) (k : Call) (h : Hook) : Prop :=
  ∃ i, a.ownerInstance h.owner = .ok i ∧ k = ⟨h.callable, [.value i.value, .scope scope]⟩

/-- The hooks that are due were called, each once and in order, after all other calls. -/
def CleansUp (x : Executor) (c : Case) (a : Arena) (t : Trace) : Prop :=
  ∃ early late r, t.calls = early ++ late ∧ (∀ k ∈ early, k.cleansUp = false) ∧
    List.Forall₂ (IsCallOf a (.scenario (c.scope (some r)))) late (x.due c a)

end Executor

namespace Trace
variable {t : Trace}

theorem early_of_offstage (h : t.offstage = true) : t.early = true := by
  rw [offstage, List.all_eq_true] at h
  rw [early, List.all_eq_true]
  intro m hm
  have := h m hm
  rcases m with ⟨r, x, b⟩
  cases r <;> simp_all [Moment.isOffstage, Moment.isEarly]

theorem cleansUp_of_early (h : t.early = true) {k : Call} (hk : k ∈ t.calls) :
    k.cleansUp = false := by
  obtain ⟨m, hm, hc⟩ := List.mem_filterMap.1 hk
  have he := List.all_eq_true.1 h m hm
  rcases m with ⟨r, x, b⟩
  cases r <;> simp_all [Moment.call?, Moment.isEarly]

theorem ofCleanup_of_early (h : t.early = true) {p : Record × Option Fault} (hp : p ∈ t.handed) :
    p.1.ofCleanup = false := by
  obtain ⟨m, hm, hc⟩ := List.mem_filterMap.1 hp
  have he := List.all_eq_true.1 h m hm
  rcases m with ⟨r, x, b⟩
  cases r <;> simp_all [Moment.handed?, Moment.isEarly]
  subst hc
  exact he

theorem not_announced_of_early (h : t.early = true) {p : Record × Option Fault} (hp : p ∈ t.handed) :
    p.1.announces .runningAfterHooks = false :=
  (Bool.or_eq_false_iff.1 (ofCleanup_of_early h hp)).1

theorem countP_isCleanupResult_of_early (h : t.early = true) :
    t.handed.countP (fun p => p.1.isCleanupResult) = 0 := by
  rw [List.countP_eq_zero]
  intro p hp
  rw [Bool.not_eq_true]
  exact (Bool.or_eq_false_iff.1 (ofCleanup_of_early h hp)).2

end Trace

namespace Executor
variable {x : Executor} {c : Case} {l l' : Ledger} {t : Trace}

theorem early_of_hands {r : Record} {e : Option Fault} (hr : r.ofCleanup = false)
    (h : x.Hands r t e) : t.early = true := by
  cases h with
  | silent _ => rfl
  | loud e m _ => simp [Trace.early, Moment.isEarly, hr]

def Early (_ : Ledger) (t : Trace) (_ : Option Fault) (_ : Ledger) : Prop := t.early = true

theorem early_stage {stage : Stage} {index : Option Int} (h : stage ≠ .runningAfterHooks) :
    Upholds Early (x.transition c stage index) := by
  intro l t o l' ht
  refine early_of_hands ?_ (ends_transition ht).2
  simp [Record.ofCleanup, Record.announces, Record.stage?, Record.isCleanupResult, h]

theorem runActs_early : RunActs x c Early (fun args => ∀ k, Call.cleansUp ⟨k, args⟩ = false)
    (· ≠ .afterScenario) where
  refl _ := rfl
  trans {_ _ _ t u _} ht hu := by
    have h := Bool.and_eq_true_iff.2 ⟨ht, hu⟩
    rwa [Trace.early, Trace.early, ← List.all_append] at h
  offstage ht _ := Trace.early_of_offstage ht
  call callable args place hC := by
    intro l t o l' h
    obtain ⟨f, m, u, rfl, hu, _⟩ := ends_invoke h
    have he : Trace.early u = true := Trace.early_of_offstage hu
    refine Bool.and_eq_true_iff.2 ⟨?_, he⟩
    rw [Moment.isEarly, hC]
    rfl
  hook k f hP := by
    intro l t o l' h
    refine early_of_hands ?_ (ends_recordHook h).2
    simpa [Record.ofCleanup, Record.announces, Record.stage?, Record.isCleanupResult, hookResult]
      using hP
  stray _ _ _ := rfl
  step r := by
    intro l t o l' h
    exact early_of_hands rfl (ends_recordStep h).2
  beforeHooks := early_stage nofun
  running _ := early_stage nofun
  admitsStep i captures argument k := by
    rw [Call.cleansUp, stepArguments]
    split <;> simp
  admitsStepHook _ _ _ := rfl
  admitsHook _ _ := rfl
  beforeScenario := nofun
  beforeStep := nofun
  afterStep := nofun

theorem early_setUp {o : Except Fault (Except Broken DispatchTable)}
    (h : Ends (x.setUp c) l t o l') : t.early = true := by
  obtain ⟨_, u, v, rfl, hv, hu, _⟩ := ends_setUp h
  have h₁ : Trace.early u = true := early_of_hands rfl hu
  have h₂ : Trace.early v = true := Trace.early_of_offstage hv
  rw [Trace.early, List.all_append, Bool.and_eq_true]
  exact ⟨h₁, h₂⟩

theorem early_recover {r : Except Fault Unit} {o : Except Fault (Except Fault Unit)}
    (h : Ends (x.recover c r) l t o l') : t.early = true := by
  obtain ⟨_, _, ⟨rfl, _⟩ | ⟨f, _, _, ⟨u, v, l₁, rfl, hi, hs⟩ | ⟨g, _, hi⟩⟩⟩ := ends_recover h
  · rfl
  · have h₁ : Trace.early u = true := Trace.early_of_offstage (ends_interrupt hi).2.1
    have h₂ : Trace.early v = true := runActs_early.skipRemaining hs
    rw [Trace.early, List.all_append, Bool.and_eq_true]
    exact ⟨h₁, h₂⟩
  · exact Trace.early_of_offstage (ends_interrupt hi).2.1

/-- All that comes before the cleanup is early. -/
theorem early_before_cleanUp {d : DispatchTable} {u v w : Trace} {r : Except Fault Unit}
    {o : Except Fault (Except Fault Unit)} {l₁ l₂ : Ledger} (hd : d.Fit) (hu : u.early = true)
    (hproceed : Ends (x.proceedThrough c d) l v r l₁) (hrecover : Ends (x.recover c r) l₁ w o l₂) :
    Trace.early (u ++ (v ++ w)) = true := by
  have hv : Trace.early v = true := runActs_early.proceedThrough hd hproceed
  have hw : Trace.early w = true := early_recover hrecover
  rw [Trace.early, List.all_append, List.all_append, Bool.and_eq_true, Bool.and_eq_true]
  exact ⟨hu, hv, hw⟩

theorem Hands.calls {r : Record} {e : Option Fault} (h : x.Hands r t e) : t.calls = [] := by
  cases h <;> rfl

theorem Hands.begins {r : Record} {e : Option Fault} (hr : r.begins = false) (h : x.Hands r t e) :
    t.begins = false := by
  cases h with
  | silent _ => rfl
  | loud e b _ => simp [Moment.begins, Moment.handed?, hr, Trace.begins]

theorem invocations_invoke {callable : Callable} {args : List Argument} {place : String}
    {o : Except Fault (Status × Option ErrorInfo)} (h : Ends (x.invoke c callable args place) l t o l') :
    ∃ f, t.invocations = [(⟨callable, args⟩, f)] ∧ (∀ r, o = .ok r → r = x.countsAs place f) ∧
      (t.tame = true → o = .ok (x.countsAs place f)) := by
  obtain ⟨f, m, u, rfl, hu, _, hcounts, hok⟩ := ends_invoke h
  exact ⟨f, Trace.invocations_of_call hu, hcounts, hok⟩

/-- A hook is called, and its result is handed over. -/
theorem ends_runHook {a : Arena} {scope : Scope} {h : Hook} {o : Except Fault Status}
    (ha : a.nodes ≠ []) (hb : a.binds h.owner = true) (ht : t.tame = true)
    (hr : Ends (x.runHook c a scope h) l t o l') :
    ∃ k f, t.invocations = [(k, f)] ∧ IsCallOf a scope k h ∧
      (x.emits = true → t.records = [.hook (x.hookResult c h f)]) ∧
      ∀ s, o = .ok s → s = (x.countsAs h.name f).1 := by
  obtain ⟨i, hi⟩ := Arena.exists_ownerInstance ha hb
  rcases Effect.ends_settle_bind_iff.1 hr with ⟨_, hi', hk⟩ | ⟨e, he, _⟩
  · cases hi.symm.trans hi'
    -- The call does not leave the run, so that its result is handed over.
    obtain ⟨u, v, s, l₁, rfl, hc, hs⟩ : ∃ u v s l₁, t = u ++ v ∧
        Ends (x.invoke c h.callable [.value i.value, .scope scope] h.name) l u (.ok s) l₁ ∧
        Ends (do x.recordHook ⟨h.phase, h.name, s.1, some c.id, s.2, noDuration⟩; return s.1)
          l₁ v o l' := by
      rcases ends_bind_iff.1 hk with ⟨u, v, s, l₁, rfl, hc, hs⟩ | ⟨e, rfl, hc⟩
      · exact ⟨u, v, s, l₁, rfl, hc, hs⟩
      · obtain ⟨_, _, _, _, _, _, _, ho⟩ := ends_invoke hc
        cases ho ht
    obtain ⟨f, m, w, rfl, hw, _, hcounts, _⟩ := ends_invoke hc
    obtain rfl := hcounts s rfl
    obtain ⟨r, rfl, hh⟩ := ends_bind_pure_iff.1 hs
    obtain ⟨_, hv⟩ := ends_recordHook hh
    have hcall : Trace.invocations (⟨.call h.callable [.value i.value, .scope scope], f, m⟩ :: w) =
        [(⟨h.callable, [.value i.value, .scope scope]⟩, f)] := Trace.invocations_of_call hw
    have hrecords : Trace.records (⟨.call h.callable [.value i.value, .scope scope], f, m⟩ :: w) =
        [] := Trace.records_of_call hw
    refine ⟨_, f, ?_, ⟨i, hi, rfl⟩, fun he => ?_, fun s hs => ?_⟩
    · rw [Trace.invocations_append, hcall, Trace.invocations_eq_nil hv.calls]
      rfl
    · rw [Trace.records_append, hrecords, hv.records he]
      rfl
    · cases r with
      | ok _ => exact (Except.ok.inj hs).symm
      | error _ => cases hs
  · exact nomatch hi.symm.trans he

/-- Hooks that do not halt each other are called one after the other, until the sink refuses. -/
theorem ends_runHookList {a : Arena} {scope : Scope} {hs : List Hook} {o : Except Fault Bool}
    (ha : a.nodes ≠ []) (hb : ∀ h ∈ hs, a.binds h.owner = true) (ht : t.tame = true)
    (hr : Ends (x.runHookList c a scope false hs) l t o l') :
    ∃ n, List.Forall₂ (IsCallOf a scope) t.calls (hs.take n) ∧
      (x.emits = true → ∃ rs : List HookResult, t.records = rs.map .hook ∧
        rs.map (·.phase) = (hs.take n).map (·.phase)) ∧
      (errorIn o = none → hs.length ≤ n) := by
  induction hs generalizing l t o with
  | nil =>
    obtain ⟨rfl, rfl, rfl⟩ := ends_pure_iff.1 hr
    exact ⟨0, .nil, fun _ => ⟨[], rfl, rfl⟩, fun _ => Nat.le_refl _⟩
  | cons h hs ih =>
    obtain ⟨hbh, hbs⟩ := List.forall_mem_cons.1 hb
    rw [runHookList] at hr
    rcases ends_bind_iff.1 hr with ⟨u, v, s, l₁, rfl, hh, hk⟩ | ⟨e, rfl, hh⟩
    · rw [Trace.tame_append, Bool.and_eq_true] at ht
      obtain ⟨k, f, hcall, hof, hrec, _⟩ := ends_runHook ha hbh ht.1 hh
      have hcalls : Trace.calls u = [k] := by rw [← Trace.map_invocations, hcall]; rfl
      obtain ⟨o', hrest, ho⟩ : ∃ o', Ends (x.runHookList c a scope false hs) l₁ v o' l' ∧
          (errorIn o = none → errorIn o' = none) := by
        split at hk
        · obtain ⟨r, rfl, hrest⟩ := ends_bind_pure_iff.1 hk
          exact ⟨r, hrest, fun h => (errorIn_map r _).symm.trans h⟩
        · exact ⟨_, hk, id⟩
      obtain ⟨n, hfollow, hrecs, hn⟩ := ih hbs ht.2 hrest
      refine ⟨n + 1, ?_, fun he => ?_, fun hnone => ?_⟩
      · rw [Trace.calls_append, hcalls, List.take_succ_cons]
        exact .cons hof hfollow
      · obtain ⟨rs, hrs, hphases⟩ := hrecs he
        refine ⟨x.hookResult c h f :: rs, ?_, ?_⟩
        · rw [Trace.records_append, hrec he, hrs]
          rfl
        · rw [List.map_cons, hphases]
          rfl
      · rw [List.length_cons]
        exact Nat.succ_le_succ (hn (ho hnone))
    · obtain ⟨k, f, hcall, hof, hrec, _⟩ := ends_runHook ha hbh ht hh
      refine ⟨1, ?_, fun he => ⟨[x.hookResult c h f], hrec he, rfl⟩,
        fun he => absurd he (Option.some_ne_none _)⟩
      rw [← Trace.map_invocations, hcall]
      exact .cons hof .nil

/-- Results of hooks after the scenario are results of the cleanup. -/
theorem countP_isCleanupResult {rs : List HookResult} {hs : List Hook}
    (hphases : rs.map (·.phase) = hs.map (·.phase)) (hhs : ∀ h ∈ hs, h.phase = .afterScenario) :
    (rs.map Record.hook).countP (·.isCleanupResult) = hs.length := by
  have hlength : rs.length = hs.length := by simpa using congrArg List.length hphases
  have hall : ∀ r ∈ rs, r.phase = .afterScenario := by
    intro r hr
    have hmem : r.phase ∈ hs.map (·.phase) := hphases ▸ List.mem_map_of_mem hr
    obtain ⟨h, hh, hphase⟩ := List.mem_map.1 hmem
    rw [← hphase, hhs h hh]
  rw [List.countP_map, ← hlength, List.countP_eq_length]
  intro r hr
  simp [Record.isCleanupResult, hall r hr]

theorem due_eq {a : Arena} {hooks : List Hook}
    (h : x.registry.lookup .afterScenario (some c.tags) = .ok hooks) :
    x.due c a = hooks.filter fun h => a.binds h.owner := by
  rw [due, h]

theorem exists_lookup_of_mem_due {a : Arena} (h : x.due c a ≠ []) :
    ∃ hooks, x.registry.lookup .afterScenario (some c.tags) = .ok hooks := by
  rw [due] at h
  cases hl : x.registry.lookup .afterScenario (some c.tags) with
  | ok hooks => exact ⟨hooks, rfl⟩
  | error f =>
    rw [hl] at h
    exact absurd rfl h

/-- The cleanup announces itself and then calls the hooks that are due, until the sink refuses. -/
theorem ends_cleanUp {a : Arena} {o : Except Fault Unit} (ha : a.nodes ≠ [])
    (ht : t.tame = true) (h : Ends (x.cleanUp c a) l t o l') :
    ∃ n r, List.Forall₂ (IsCallOf a (.scenario (c.scope (some r)))) t.calls ((x.due c a).take n) ∧
      (x.emits = true → t.records.countP (·.isCleanupResult) = ((x.due c a).take n).length ∧
        t.records.any (·.announces .runningAfterHooks) = true) ∧
      (errorIn o = none → (x.due c a).length ≤ n) := by
  have hnone : ∀ {u : Trace} {e : Option Fault},
      x.Hands (.stage ⟨c.id, .runningAfterHooks, none, none⟩) u e → x.emits = true →
        u.records.countP (·.isCleanupResult) = 0 ∧
          u.records.any (·.announces .runningAfterHooks) = true := by
    intro u e hu he
    rw [hu.records he]
    exact ⟨rfl, rfl⟩
  rcases ends_bind_iff.1 h with ⟨u, v, _, l₁, rfl, hs, hk⟩ | ⟨e, rfl, hs⟩
  · obtain ⟨rfl, hu⟩ := ends_transition hs
    rw [ends_get_bind_iff] at hk
    rw [Trace.tame_append, Bool.and_eq_true] at ht
    obtain ⟨r, rfl, hh⟩ := ends_bind_pure_iff.1 hk
    have htags : (Scope.scenario (c.scope (some (c.result l₁ .runningAfterHooks)))).tags =
        some c.tags := rfl
    rw [runHooks, htags] at hh
    rcases Effect.ends_settle_bind_iff.1 hh with ⟨hooks, hl, hrun⟩ | ⟨e, hl, rfl, _⟩
    · have hdue := due_eq (a := a) hl
      rw [← hdue] at hrun
      have hdue_binds : ∀ h ∈ x.due c a, a.binds h.owner = true := by
        intro h hm
        rw [hdue] at hm
        exact (List.mem_filter.1 hm).2
      have hdue_phase : ∀ h ∈ x.due c a, h.phase = .afterScenario := by
        intro h hm
        rw [hdue] at hm
        exact Registry.phase_of_mem_lookup hl (List.mem_filter.1 hm).1
      obtain ⟨n, hcalls, hrec, hn⟩ := ends_runHookList ha hdue_binds ht.2 hrun
      refine ⟨n, c.result l₁ .runningAfterHooks, ?_, fun he => ?_, ?_⟩
      · rw [Trace.calls_append, hu.calls]
        exact hcalls
      · obtain ⟨rs, hrs, hphases⟩ := hrec he
        obtain ⟨hzero, hann⟩ := hnone hu he
        rw [Trace.records_append, List.countP_append, List.any_append, hzero, hann, hrs, Nat.zero_add]
        exact ⟨countP_isCleanupResult hphases fun h hm => hdue_phase h (List.mem_of_mem_take hm), rfl⟩
      · rw [errorIn_map]
        exact hn
    · -- Nothing can be chosen, so that nothing is due.
      have hdue : x.due c a = [] := by rw [due, hl]
      refine ⟨0, c.result l₁ .runningAfterHooks, ?_, fun he => ?_, fun _ => ?_⟩
      · rw [List.append_nil, hu.calls]
        exact .nil
      · rw [List.append_nil]
        exact hnone hu he
      · rw [hdue]
        exact Nat.le_refl _
  · obtain ⟨_, hu⟩ := ends_transition hs
    refine ⟨0, c.result l .runningAfterHooks, ?_, fun he => hnone hu he, fun he => absurd he (Option.some_ne_none _)⟩
    rw [hu.calls]
    exact .nil

theorem cleansUp_of_isCallOf {a : Arena} {r : ScenarioResult} {ks : List Call} {hs : List Hook}
    (h : List.Forall₂ (IsCallOf a (.scenario (c.scope (some r)))) ks hs) :
    ∀ k ∈ ks, k.cleansUp = true := by
  induction h with
  | nil => nofun
  | cons hk _ ih =>
    obtain ⟨i, _, rfl⟩ := hk
    exact List.forall_mem_cons.2 ⟨rfl, ih⟩

/-- When the calls of the cleanup are those of the first `n` hooks that are due, it is complete when
there are no more of them. -/
theorem cleansUp_iff_le {a : Arena} {r : ScenarioResult} {n : Nat} {early late : List Call}
    (ht : t.calls = early ++ late) (hearly : ∀ k ∈ early, k.cleansUp = false)
    (hlate : List.Forall₂ (IsCallOf a (.scenario (c.scope (some r)))) late ((x.due c a).take n)) :
    x.CleansUp c a t ↔ (x.due c a).length ≤ n := by
  have hfilter : ∀ {e l : List Call}, (∀ k ∈ e, k.cleansUp = false) →
      (∀ k ∈ l, k.cleansUp = true) → (e ++ l).filter Call.cleansUp = l := by
    intro e l he hl
    rw [List.filter_append, List.filter_eq_self.2 hl, List.filter_eq_nil_iff.2, List.nil_append]
    exact fun k hk => Bool.not_eq_true _ ▸ he k hk
  constructor
  · rintro ⟨early', late', r', ht', hearly', hlate'⟩
    have hl := hfilter hearly (cleansUp_of_isCallOf hlate)
    have hl' := hfilter hearly' (cleansUp_of_isCallOf hlate')
    rw [← ht] at hl
    rw [← ht', hl] at hl'
    have hlen := hlate.length_eq
    rw [hl', hlate'.length_eq, List.length_take] at hlen
    omega
  · intro hn
    rw [List.take_of_length_le hn] at hlate
    exact ⟨early, late, r, ht, hearly, hlate⟩

theorem not_sparesCleanup_of_getElem? {m : Nat} (n : Nat)
    (hf : (t.handed[n]?.bind (·.2)).isSome = true)
    (hann : (t.handed.take (n + 1)).any (·.1.announces .runningAfterHooks) = true)
    (hm : (t.handed.take (n + 1)).countP (fun p => p.1.isCleanupResult) < m) :
    ¬ t.SparesCleanup m := by
  intro hspare
  obtain ⟨r, f, hsplit, htake, _⟩ := Trace.handed_split hf
  have hle := hspare _ r f _ hsplit
  rw [← htake] at hle
  exact Nat.not_le_of_lt hm (hle (List.any_eq_true.1 hann))

/-- Where a part of a run that is not cut short before its end has a record that is refused, it has
come to its end. -/
theorem prefix_of_refused {before after A B C : List (Record × Option Fault)}
    {q : Record × Option Fault} (h : before ++ q :: after = A ++ (B ++ C)) (hq : q.2 ≠ none)
    (hA : ¬ before ++ [q] <+: A) (hB : ∀ p ∈ B.dropLast, p.2 = none) :
    A ++ B <+: before ++ [q] := by
  have hP : before ++ [q] <+: A ++ (B ++ C) := ⟨after, by simp [← h]⟩
  have hAB : A ++ B <+: A ++ (B ++ C) := ⟨C, List.append_assoc ..⟩
  rcases List.prefix_or_prefix_of_prefix hP hAB with hle | hle
  · obtain ⟨P, hAP⟩ := (List.prefix_or_prefix_of_prefix hP (List.prefix_append A _)).resolve_left hA
    -- What is behind `A` is not empty and ends in `q`, so that nothing of `B` follows it.
    rcases List.eq_nil_or_concat P with rfl | ⟨P, p, rfl⟩
    · exact absurd (List.append_nil A ▸ hAP ▸ List.prefix_rfl) hA
    · rw [List.concat_eq_append, ← List.append_assoc] at hAP
      obtain ⟨hbefore, hp⟩ := List.append_inj' hAP rfl
      obtain rfl := List.singleton_inj.1 hp
      rw [← hAP, List.append_assoc, List.prefix_append_right_inj] at hle
      obtain ⟨w, rfl⟩ := hle
      cases w with
      | nil =>
        have hend : A ++ (P ++ [p] ++ []) = before ++ [p] := by
          rw [List.append_nil, ← List.append_assoc, hAP]
        exact hend ▸ List.prefix_rfl
      | cons y w =>
        refine absurd (hB p ?_) hq
        rw [List.dropLast_append_of_ne_nil (List.cons_ne_nil y w)]
        simp
  · exact hle

theorem CutBy.dropLast {e : Option Fault} (h : x.CutBy t e) :
    ∀ p ∈ t.handed.dropLast, p.2 = none := by
  have htaken : ∀ {u : Trace}, u.taken = true → ∀ p ∈ u.handed, p.2 = none :=
    fun hu p hp => Option.isNone_iff_eq_none.1 (List.all_eq_true.1 hu p hp)
  cases e with
  | none => exact fun p hp => htaken h p (List.dropLast_subset _ hp)
  | some f =>
    obtain ⟨_, u, r, m, rfl, hu⟩ := h
    have hd : Trace.handed [⟨.emit r, some f, m⟩] = [(r, some f)] := rfl
    rw [Trace.handed_append, hd, List.dropLast_concat]
    exact htaken hu

theorem CutBy.mem_handed {f : Fault} (h : x.CutBy t (some f)) : ∃ r, (r, some f) ∈ t.handed := by
  obtain ⟨_, u, r, m, rfl, _⟩ := h
  exact ⟨r, by simp [Trace.handed, Moment.handed?]⟩

theorem raised_runComposed {d : DispatchTable} {f : Fault} (hd : d.Fit) (ho : x.Orderly c)
    (ht : t.tame = true) (h : Ends (x.runComposed c d) l t (.error f) l') :
    ∃ r, (r, some f) ∈ t.handed := by
  obtain ⟨t₁, t₂, t₃, t₄, r₁, r₂, r₃, l₁, l₂, l₃, rfl, hproceed, hrecover, hclean, hend⟩ :=
    ends_runComposed h
  simp only [Trace.tame_append, Bool.and_eq_true] at ht
  obtain ⟨ht₁, ht₂, ht₃, ht₄⟩ := ht
  simp only [Trace.handed_append, List.mem_append]
  rcases hend with ⟨_, _, hk⟩ | ⟨_, _, g, hg, rfl | ⟨_, rfl⟩⟩
  · obtain ⟨r, hr⟩ := (closingActs_onlyCutBySink.conclude hk ho ht₄).mem_handed
    exact ⟨r, .inr (.inr (.inr hr))⟩
  · cases hg
    have hcut := onlyCutBySink_cleanUp hd.rooted hclean ho ht₃
    obtain ⟨r, hr⟩ := hcut.mem_handed
    exact ⟨r, .inr (.inr (.inl hr))⟩
  · cases hg
    obtain ⟨r', hr', ⟨_, rfl, _⟩ | ⟨g, _, _, ⟨u, v, l₄, rfl, hi, hs⟩ | ⟨_, _, hi⟩⟩⟩ :=
      ends_recover hrecover
    · cases hr'
      obtain ⟨r, hr⟩ := (runActs_onlyCutBySink.proceedThrough hd hproceed ho ht₁).mem_handed
      exact ⟨r, .inl hr⟩
    · cases hr'
      rw [Trace.tame_append, Bool.and_eq_true] at ht₂
      obtain ⟨r, hr⟩ := (runActs_onlyCutBySink.skipRemaining hs ho ht₂.2).mem_handed
      exact ⟨r, .inr (.inl (Trace.handed_append u v ▸ List.mem_append_right _ hr))⟩
    · cases (ends_interrupt hi).2.2 ht₂

theorem cleansUp_runComposed {d : DispatchTable} {u : Trace} {o : Except Fault ScenarioResult}
    (hd : d.Fit) (ht : t.tame = true) (hu : u.early = true)
    (h : Ends (x.runComposed c d) l t o l') :
    x.CleansUp c d.arena (u ++ t) ↔
      (x.emits = true → Trace.SparesCleanup (u ++ t) (x.due c d.arena).length) := by
  obtain ⟨t₁, t₂, t₃, t₄, r₁, r₂, r₃, l₁, l₂, l₃, rfl, hproceed, hrecover, hclean, hend⟩ :=
    ends_runComposed h
  simp only [Trace.tame_append, Bool.and_eq_true] at ht
  have hearly : Trace.early (u ++ (t₁ ++ t₂)) = true := early_before_cleanUp hd hu hproceed hrecover
  obtain ⟨n, r, hcalls, hrecords, hn⟩ := ends_cleanUp hd.rooted ht.2.2.1 hclean
  have ht₄ : Trace.calls t₄ = [] := by
    rcases hend with ⟨_, _, hk⟩ | ⟨rfl, _⟩
    · exact (closingActs_quiet.conclude hk).2.1
    · rfl
  have hsplit : u ++ (t₁ ++ (t₂ ++ (t₃ ++ t₄))) = (u ++ (t₁ ++ t₂)) ++ (t₃ ++ t₄) := by simp
  rw [hsplit]
  generalize u ++ (t₁ ++ t₂) = v at hearly
  have hvcalls : Trace.calls (v ++ (t₃ ++ t₄)) = Trace.calls v ++ Trace.calls t₃ := by simp [ht₄]
  rw [cleansUp_iff_le hvcalls (fun k hk => Trace.cleansUp_of_early hearly hk) hcalls]
  -- Where nothing is due both sides hold; else the hooks were chosen, and only the sink cuts in.
  by_cases hdue : x.due c d.arena = []
  · rw [hdue]
    exact iff_of_true (Nat.zero_le n) fun _ _ _ _ _ _ _ => Nat.zero_le _
  obtain ⟨hooks, hl⟩ := exists_lookup_of_mem_due hdue
  have hcut : x.CutBy t₃ (errorIn r₃) := cutBy_cleanUp hd.rooted hl ht.2.2.1 hclean
  have hcount : x.emits = true → (Trace.handed t₃).countP (fun p => p.1.isCleanupResult) =
      ((x.due c d.arena).take n).length := by
    intro he
    rw [← (hrecords he).1, Trace.records, List.countP_map]
    rfl
  constructor
  · -- What is refused is the last of the cleanup at the earliest, and then all of it was done.
    rintro hle he before r' f after heq ⟨p, hp, hann⟩
    have hvh : ¬ before ++ [(r', some f)] <+: Trace.handed v := by
      intro hpre
      cases hann.symm.trans (Trace.not_announced_of_early hearly (hpre.subset hp))
    rw [Trace.handed_append, Trace.handed_append] at heq
    have hpre := prefix_of_refused heq.symm (Option.some_ne_none f) hvh hcut.dropLast
    have hmono := hpre.sublist.countP_le (p := fun p => p.1.isCleanupResult)
    rw [List.countP_append, hcount he, List.take_of_length_le hle] at hmono
    omega
  · intro hspare
    cases r₃ with
    | ok _ => exact hn rfl
    | error f =>
      obtain ⟨rfl, _⟩ : t₄ = [] ∧ _ := hend.resolve_left fun hh => by cases hh.2.1
      obtain ⟨he, w, r', m, rfl, _⟩ := hcut
      obtain ⟨p, hp, hann⟩ := List.any_eq_true.1 (hrecords he).2
      obtain ⟨q, hq, rfl⟩ := List.mem_map.1 hp
      have hlast : Trace.handed (w ++ [⟨.emit r', some f, m⟩]) =
          Trace.handed w ++ [(r', some f)] := by simp [Trace.handed, Moment.handed?]
      have hcount := hcount he
      rw [hlast] at hq hcount
      have hle := hspare he (Trace.handed v ++ Trace.handed w) r' f [] (by simp [hlast])
        ⟨q, by rw [List.append_assoc]; exact List.mem_append_right _ hq, hann⟩
      rw [List.append_assoc, List.countP_append, Trace.countP_isCleanupResult_of_early hearly, hcount,
        List.length_take] at hle
      omega

/-- The cleanup of a run on contexts. All hooks that are due are called, each once, in order and last,
exactly when the sink refuses nothing from the announcement of the cleanup on before the last of their
results. What an orderly run raises is what the sink raised. -/
theorem cleansUp_iff_sparesCleanup {scenario : Scenario} {feature : Option Feature}
    {id : Option String} {d : DispatchTable} {o : Except Fault ScenarioResult}
    (h : (x.run scenario feature id).Runs t o)
    (hp : x.Prepared (.named scenario feature id) t d) (ht : t.tame = true) :
    (x.CleansUp (.named scenario feature id) d.arena t ↔
      (x.emits = true → t.SparesCleanup (x.due (.named scenario feature id) d.arena).length)) ∧
    (x.Orderly (.named scenario feature id) →
      ∀ f, o = .error f → ∃ r, (r, some f) ∈ t.handed) := by
  obtain ⟨l', hc⟩ := runs_run_iff.1 h
  obtain ⟨hd, u, v, rfl, hs, hk⟩ := hp.ends hc
  rw [Trace.tame_append, Bool.and_eq_true] at ht
  refine ⟨cleansUp_runComposed hd ht.2 (early_setUp hs) hk, ?_⟩
  rintro ho f rfl
  obtain ⟨r, hr⟩ := raised_runComposed hd ho ht.2 hk
  exact ⟨r, by rw [Trace.handed_append]; exact List.mem_append_right _ hr⟩

/-- The sink refuses the announcement of the cleanup, and the hook that is due is not called. -/
theorem cleansUp_iff_sparesCleanup_sample :
    let x := Sample.executor [Sample.hook .afterScenario 1 "pay"]
    let w := Sample.surroundings
      (fun n => if n = 6 then some (.ofKind "OSError" "disk full") else none) fun _ => none
    let t := w.traceOf (x.run Sample.scenario none none)
    t.tame = true ∧
      ¬ x.CleansUp (.named Sample.scenario none none) Sample.table.arena t := by
  intro x w t
  have ht : t.tame = true := Surroundings.tame_traceOf _ (Sample.tame nofun)
  have hlaw := cleansUp_iff_sparesCleanup (w.runs_traceOf _) (Sample.prepared rfl) ht
  refine ⟨ht, fun hc => ?_⟩
  have hcompose : compose x.root = _ := compose_leaf ..
  refine not_sparesCleanup_of_getElem? 6 ?_ ?_ ?_ (hlaw.1.1 hc rfl) <;>
    unfold Surroundings.traceOf Executor.run Executor.runCase Executor.setUp <;>
    rw [hcompose] <;> decide +kernel

end Executor
end Rehearsal
