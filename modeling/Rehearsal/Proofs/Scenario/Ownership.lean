import Rehearsal.Proofs.Scenario.Setup

/-! Scenarios whose contexts were all constructed. Before the first hook is called each definition is
given the context of its owner; where one of them has an owner that is not in the tree the scenario is
abandoned without its contexts, and what was constructed is not cleaned up. Callables may end in any
way here: the cleanup is cut short by a hook that exits, and by nothing else. -/

namespace Rehearsal
set_option autoImplicit false

/-- The sink takes every record and the log every message. -/
def Trace.accepted (t : Trace) : Bool := t.taken && t.logged

@[simp] theorem Trace.accepted_append (t u : Trace) :
    accepted (t ++ u) = (t.accepted && u.accepted) := by
  simp only [accepted, taken_append, logged_append]
  ac_rfl

/-- Does every definition have an owner that is among some contexts, or none? -/
def Registry.ownedIn (r : Registry) (specs : List ContextSpec) : Bool :=
  r.definitions.all fun d => d.owner.all fun aliasName => specs.any (·.aliasName == aliasName)

theorem Arena.binds_of_ownerInstance {a : Arena} {owner : Option String} {i : Instance}
    (h : a.ownerInstance owner = .ok i) : a.binds owner = true := by
  cases owner with
  | none => rfl
  | some aliasName =>
    obtain ⟨m, hm, _⟩ := except_bind_eq_ok_iff.1 h
    obtain ⟨j, hj, _⟩ := except_bind_eq_ok_iff.1 hm
    rw [find] at hj
    split at hj
    · rename_i j' hj'
      rw [binds, has, ← List.findIdx?_isSome, ← find?, hj']
      rfl
    · cases hj

namespace DispatchTable
variable {r : Registry} {a : Arena} {specs : List ContextSpec} {built : List Instance}

theorem binds_of_targets {es : List StepDefinition} {targets : List Instance}
    (h : List.Forall₂ (fun e i => a.ownerInstance e.owner = .ok i) es targets) :
    ∀ e ∈ es, a.binds e.owner = true := by
  induction h with
  | nil => exact fun e he => absurd he List.not_mem_nil
  | cons hi _ ih => exact List.forall_mem_cons.2 ⟨Arena.binds_of_ownerInstance hi, ih⟩

theorem ownedIn_of_build {d : DispatchTable} (ha : a.Holds specs built) (h : build r a = .ok d) :
    r.ownedIn specs = true := by
  obtain ⟨_, hdefinitions, htargets⟩ := build_eq_ok h
  rw [hdefinitions] at htargets
  exact List.all_eq_true.2 fun e he => ha.binds_iff e.owner ▸ binds_of_targets htargets e he

/-- Who cannot be built a table for is a definition with an owner that is not there. -/
theorem unowned_of_build {f : Fault} (ha : a.Holds specs built) (hroot : a.nodes ≠ [])
    (h : build r a = .error f) :
    ∃ e ∈ r.definitions, ∃ aliasName, e.owner = some aliasName ∧
      specs.any (·.aliasName == aliasName) = false ∧ f = .unknownAlias aliasName := by
  obtain ⟨e, he, hf⟩ := exists_of_mapM_eq_error
    ((except_bind_eq_error_iff.1 h).resolve_right fun hr => nomatch hr.choose_spec.2)
  have hunbound : a.binds e.owner = false := by
    refine Bool.eq_false_iff.2 fun hb => ?_
    obtain ⟨i, hi⟩ := Arena.exists_ownerInstance hroot hb
    exact nomatch hi.symm.trans hf
  cases ho : e.owner with
  | none =>
    rw [ho] at hunbound
    cases hunbound
  | some aliasName =>
    rw [ho] at hunbound hf
    have hnone : a.find? aliasName = none :=
      List.findIdx?_eq_none_iff.2 (by simpa [Arena.binds, Arena.has] using hunbound)
    rw [ha.binds_iff] at hunbound
    rw [Arena.ownerInstance, Arena.resolve, Arena.find, hnone] at hf
    exact ⟨e, he, aliasName, ho, hunbound, (Except.error.inj hf).symm⟩

end DispatchTable

namespace UpToFailure
variable {fits : Call → Hook → Prop} {fails : Option Fault → Bool} {hs : List Hook}
  {ks : List (Call × Option Fault)} {ready : Bool}

theorem forall₂_take (h : UpToFailure fits fails hs ks ready) :
    List.Forall₂ fits (ks.map (·.1)) (hs.take ks.length) := by
  induction h with
  | nil => exact .nil
  | halt hk _ => exact .cons hk .nil
  | next hk _ _ ih => exact .cons hk ih

/-- Hooks are called to the last one when none but the last fails. -/
theorem complete_iff (h : UpToFailure fits fails hs ks ready) :
    List.Forall₂ fits (ks.map (·.1)) hs ↔
      ∀ n p, ks[n]? = some p → fails p.2 = true → hs.length ≤ n + 1 := by
  induction h with
  | nil => simp
  | @halt k h hs f hk hf =>
    constructor
    · rintro hall n p hp _
      rw [hall.length_eq.symm, List.length_map, List.length_singleton]
      omega
    · intro hspare
      obtain rfl := List.length_eq_zero_iff.1 (Nat.le_zero.1 (Nat.le_of_succ_le_succ (hspare 0 _ rfl hf)))
      exact .cons hk .nil
  | @next k h hs ks f ready hk hf _ ih =>
    rw [List.map_cons, List.forall₂_cons, ih]
    constructor
    · rintro ⟨_, hspare⟩ n p hp hfails
      cases n with
      | zero =>
        cases hp
        exact nomatch hf.symm.trans hfails
      | succ n => exact Nat.succ_le_succ (hspare n p hp hfails)
    · exact fun hspare => ⟨hk, fun n p hp hfails => Nat.le_of_succ_le_succ (hspare (n + 1) p hp hfails)⟩

end UpToFailure

namespace Executor
variable {x : Executor} {c : Case} {l l' : Ledger} {t : Trace} {a : Arena} {scope : Scope}
  {built : List Instance} {hooks : List Hook}

/-- In the run that a trace tells of, every context of the tree was constructed: these, in preorder. -/
def BuildsAll (x : Executor) (c : Case) (t : Trace) (built : List Instance) : Prop :=
  ∃ u v r l, t = u ++ v ∧ Ends (x.setUp c) Ledger.empty u r l ∧
    u.constructions = List.zipWith (fun s i => (s.factory, .ok i)) x.root.contexts built ∧
    built.length = x.root.contexts.length

/-- The hooks whose owners are in the tree were called, each once, in order and after all other calls. -/
def Tidies (x : Executor) (c : Case) (built : List Instance) (hooks : List Hook) (t : Trace) : Prop :=
  ∃ early late shown, t.calls = early ++ late ∧ (∀ k ∈ early, k.cleansUp = false) ∧
    List.Forall₂ (IsCallOn x.root.contexts built (.scenario (c.scope (some shown)))) late
      (hooks.filter (ownedIn x.root.contexts))

def exits (f : Option Fault) : Bool := f.any (·.family == .exit)

/-- No hook of the cleanup exits before the last of `n`. -/
def SparesRest (n : Nat) (t : Trace) : Prop :=
  ∀ i p, (t.invocations.filter (·.1.cleansUp))[i]? = some p → exits p.2 = true → n ≤ i + 1

/-- A run that was given up although its contexts were all there. Its error names the owner that is not,
and nothing is called. -/
structure Forsakes (x : Executor) (c : Case) (t : Trace) (r : ScenarioResult) : Prop where
  aborted : r.stage = .aborted
  failed : r.status = .failed
  error : ∃ d ∈ x.registry.definitions, ∃ aliasName, d.owner = some aliasName ∧
    x.root.contexts.any (·.aliasName == aliasName) = false ∧
    r.error = some (x.setUpError c (.unknownAlias aliasName))
  steps : r.steps = c.scenario.steps.zipIdx.map (skippedStep c)
  bare : t.calls = []

theorem Hands.accepted {r : Record} {e : Option Fault} (h : x.Hands r t e) (ht : t.accepted = true) :
    e = none := by
  cases h with
  | silent _ => rfl
  | loud e m _ =>
    cases e with
    | none => rfl
    | some f => cases ht

theorem ok_of_log {level : LogLevel} {message : String} {fields : List (String × Datum)}
    {o : Except Fault Unit} (h : Ends (x.log level message fields) l t o l')
    (ht : t.accepted = true) : o = .ok () := by
  rw [log, Effect.log] at h
  split at h
  · obtain ⟨_, f, m, rfl, ho⟩ := Effect.ends_perform_proceed_iff.1 h
    change Option Fault at f
    cases f with
    | none =>
      cases o with
      | ok _ => rfl
      | error g => cases ho
    | some f => cases ht
  · exact (ends_pure_iff.1 h).2.1

theorem ok_of_interrupt {place : String} {o : Except Fault Unit}
    (h : Ends (x.interrupt c place) l t o l') (ht : t.accepted = true) : o = .ok () := by
  rw [interrupt, ends_modify_bind_iff] at h
  split at h
  · obtain ⟨_, m, u, rfl, hlog⟩ := Effect.ends_perform_bind_iff.1 h
    exact ok_of_log hlog ht
  · exact ok_of_log h ht

/-- A call leaves the run by an exit, and otherwise it does not. -/
theorem exits_of_invoke {callable : Callable} {args : List Argument} {place : String}
    {o : Except Fault (Status × Option ErrorInfo)} (h : Ends (x.invoke c callable args place) l t o l')
    (ht : t.accepted = true) :
    ∃ f, t.invocations = [(⟨callable, args⟩, f)] ∧ (errorIn o).isSome = exits f := by
  obtain ⟨f, m, u, rfl, hu, _⟩ := ends_invoke h
  refine ⟨f, Trace.invocations_of_call hu, ?_⟩
  obtain ⟨f', m', u', he, hk⟩ := Effect.ends_perform_bind_iff.1 h
  change Option Fault at f'
  cases he
  have ht : Trace.accepted u = true := ht
  rcases f with _ | f
  · rw [(ends_pure_iff.1 hk).2.1]
    rfl
  have hexits : exits (some f) = (f.family == .exit) := rfl
  rw [hexits]
  cases hf : f.family with
  | pending =>
    simp only [hf] at hk
    rw [(ends_pure_iff.1 hk).2.1]
    rfl
  | ordinary =>
    simp only [hf] at hk
    rcases ends_bind_iff.1 hk with ⟨v, w, _, l₁, rfl, _, hp⟩ | ⟨e, rfl, hl⟩
    · rw [(ends_pure_iff.1 hp).2.1]
      rfl
    · cases ok_of_log hl ht
  | interrupt =>
    simp only [hf] at hk
    rcases ends_bind_iff.1 hk with ⟨v, w, _, l₁, rfl, _, hp⟩ | ⟨e, rfl, hi⟩
    · rw [(ends_pure_iff.1 hp).2.1]
      rfl
    · cases ok_of_interrupt hi ht
  | exit =>
    simp only [hf] at hk
    rw [(ends_throw_iff.1 hk).2.1]
    rfl

theorem exits_of_runHook {h : Hook} {o : Except Fault Status} (ha : a.nodes ≠ [])
    (hb : a.binds h.owner = true) (hr : Ends (x.runHook c a scope h) l t o l')
    (ht : t.accepted = true) :
    ∃ k f, t.invocations = [(k, f)] ∧ IsCallOf a scope k h ∧ (errorIn o).isSome = exits f := by
  obtain ⟨i, hi⟩ := Arena.exists_ownerInstance ha hb
  obtain ⟨_, hi', hk⟩ := (Effect.ends_settle_bind_iff.1 hr).resolve_right
    fun hno => nomatch hi.symm.trans hno.choose_spec.1
  cases hi.symm.trans hi'
  rcases ends_bind_iff.1 hk with ⟨u, v, s, l₁, rfl, hc, hs⟩ | ⟨e, rfl, hc⟩
  · rw [Trace.accepted_append, Bool.and_eq_true] at ht
    obtain ⟨f, hcall, hf⟩ := exits_of_invoke hc ht.1
    obtain ⟨r, rfl, hrecord⟩ := ends_bind_pure_iff.1 hs
    obtain ⟨_, hv⟩ := ends_recordHook hrecord
    refine ⟨_, f, ?_, ⟨i, hi, rfl⟩, ?_⟩
    · rw [Trace.invocations_append, hcall, Trace.invocations_eq_nil hv.calls, List.append_nil]
    · rw [errorIn_map, hv.accepted ht.2]
      exact hf
  · obtain ⟨f, hcall, hf⟩ := exits_of_invoke hc ht
    exact ⟨_, f, hcall, ⟨i, hi, rfl⟩, hf⟩

/-- Hooks that do not halt each other are called up to the first that exits. -/
theorem upToExit_runHookList {hs : List Hook} {o : Except Fault Bool} (ha : a.nodes ≠ [])
    (hb : ∀ h ∈ hs, a.binds h.owner = true) (h : Ends (x.runHookList c a scope false hs) l t o l')
    (ht : t.accepted = true) :
    ∃ ready, UpToFailure (IsCallOf a scope) exits hs t.invocations ready := by
  induction hs generalizing l t o with
  | nil =>
    obtain ⟨rfl, _, _⟩ := ends_pure_iff.1 h
    exact ⟨true, .nil⟩
  | cons k hs ih =>
    obtain ⟨hbk, hbs⟩ := List.forall_mem_cons.1 hb
    rw [runHookList] at h
    rcases ends_bind_iff.1 h with ⟨u, v, s, l₁, rfl, hk, hrest⟩ | ⟨e, rfl, hk⟩
    · rw [Trace.accepted_append, Bool.and_eq_true] at ht
      obtain ⟨call, f, hcall, hof, hf⟩ := exits_of_runHook ha hbk hk ht.1
      obtain ⟨o', hrest⟩ : ∃ o', Ends (x.runHookList c a scope false hs) l₁ v o' l' := by
        split at hrest
        · obtain ⟨r, _, hlist⟩ := ends_bind_pure_iff.1 hrest
          exact ⟨r, hlist⟩
        · exact ⟨_, hrest⟩
      obtain ⟨ready, hcalls⟩ := ih hbs hrest ht.2
      rw [Trace.invocations_append, hcall]
      exact ⟨ready, .next hof hf.symm hcalls⟩
    · obtain ⟨call, f, hcall, hof, hf⟩ := exits_of_runHook ha hbk hk ht
      rw [hcall]
      exact ⟨false, .halt hof hf.symm⟩

theorem upToExit_cleanUp {o : Except Fault Unit} (ha : a.nodes ≠ [])
    (hl : x.registry.lookup .afterScenario (some c.tags) = .ok hooks)
    (h : Ends (x.cleanUp c a) l t o l') (ht : t.accepted = true) :
    ∃ shown ready, UpToFailure (IsCallOf a (.scenario (c.scope (some shown)))) exits
      (x.applicable .afterScenario c a) t.invocations ready := by
  rcases ends_bind_iff.1 h with ⟨u, v, _, l₁, rfl, hs, hk⟩ | ⟨e, rfl, hs⟩
  · rw [Trace.accepted_append, Bool.and_eq_true] at ht
    rw [ends_get_bind_iff] at hk
    obtain ⟨r, _, hrun⟩ := ends_bind_pure_iff.1 hk
    have htags : (Scope.scenario (c.scope (some (c.result l₁ .runningAfterHooks)))).tags =
        some c.tags := rfl
    rw [runHooks, htags, hl] at hrun
    have happlicable : x.applicable .afterScenario c a = hooks.filter fun h => a.binds h.owner := by
      rw [applicable, hl]
    obtain ⟨ready, hcalls⟩ := upToExit_runHookList ha
      (fun h hm => (List.mem_filter.1 hm).2) hrun ht.2
    rw [Trace.invocations_append, Trace.invocations_eq_nil (ends_transition hs).2.calls,
      List.nil_append, happlicable]
    exact ⟨_, ready, hcalls⟩
  · cases (ends_transition hs).2.accepted ht

/-- Without contexts there is nothing to call, and no way for the run to be cut short. -/
theorem ok_of_abandon {cause : Fault} {o : Except Fault ScenarioResult}
    (h : Ends (x.abandon c cause none) l t o l') (ht : t.accepted = true) : ∃ r, o = .ok r := by
  have hseq : Sequential fun (_ : Ledger) (t : Trace) (e : Option Fault) (_ : Ledger) =>
      t.accepted = true → e = none := {
    refl := fun _ _ => rfl
    trans := fun _ hu ht => hu (Bool.and_eq_true_iff.1 (Trace.accepted_append _ _ ▸ ht)).2 }
  have hemit : ∀ r : Record, Upholds (fun (_ : Ledger) (t : Trace) e (_ : Ledger) =>
      t.accepted = true → e = none) (x.emit r) := fun r _ _ _ _ h => (ends_emit h).2.accepted
  have hcut : Upholds (fun (_ : Ledger) (t : Trace) e (_ : Ledger) => t.accepted = true → e = none)
      (x.abandon c cause none) := by
    refine upholds_abandon (L := fun t e => t.accepted = true → e = none) hseq
      (fun _ _ _ _ _ _ _ h ht => ?_)
      (upholds_skipAll hseq fun r _ _ _ _ _ h => (ends_recordStep h).2.accepted)
      (upholds_pure hseq _) ?_
    · rw [ok_of_log h ht, errorIn_ok]
    · refine upholds_bind hseq (upholds_get hseq) fun _ => ?_
      refine upholds_bind hseq (hemit _) fun _ => ?_
      exact upholds_bind hseq (hemit _) fun _ => upholds_pure hseq _
  cases o with
  | ok r => exact ⟨r, rfl⟩
  | error f => cases hcut h ht

theorem bare_abandon {cause : Fault} {r : ScenarioResult}
    (h : Ends (x.abandon c cause none) Ledger.empty t (.ok r) l') :
    t.calls = [] ∧ r.steps = c.scenario.steps.zipIdx.map (skippedStep c) := by
  obtain ⟨u, v, w, z, l₁, l₂, rfl, hoff, hskip, hclean, hannounce⟩ := ends_abandon h
  obtain ⟨rfl, _, rfl⟩ := ends_pure_iff.1 hclean
  obtain ⟨hv, hl₁⟩ := idle_skipAll hskip
  obtain ⟨hz, hr⟩ := idle_announce (.inl rfl) hannounce
  refine ⟨?_, by rw [hr, hl₁]; rfl⟩
  simp [Trace.calls_of_offstage hoff, hv.1, hz.1]

/-- Where all contexts were constructed, each definition has a context, or one of them has an owner that
is not there. -/
theorem placed_of_setUp {u : Trace} {r : Except Fault (Except Broken DispatchTable)}
    (h : Ends (x.setUp c) l u r l')
    (hc : u.constructions = List.zipWith (fun s i => (s.factory, .ok i)) x.root.contexts built)
    (hlen : built.length = x.root.contexts.length) (hu : u.accepted = true) :
    (∃ d, r = .ok (.ok d) ∧ d.arena.Holds x.root.contexts built ∧
      x.registry.ownedIn x.root.contexts = true) ∨
    ∃ e ∈ x.registry.definitions, ∃ aliasName, e.owner = some aliasName ∧
      x.root.contexts.any (·.aliasName == aliasName) = false ∧
      r = .ok (.error ⟨.unknownAlias aliasName, none⟩) := by
  obtain ⟨_, v, w, rfl, hv, ⟨⟨f, rfl⟩, _⟩ | ⟨q, hcompose, rfl⟩⟩ := composes_of_setUp h
  · rw [Trace.accepted_append, Bool.and_eq_true] at hu
    cases hv.accepted hu.1
  · rw [Trace.constructions_append, hv.constructions, List.nil_append] at hc
    obtain ⟨a, rfl, hholds⟩ := holds_of_constructed hcompose hc hlen
    have hroot : a.nodes ≠ [] := (composed_compose hcompose).rooted a rfl
    cases hb : DispatchTable.build x.registry a with
    | ok d =>
      refine .inl ⟨d, by rw [Except.bind, hb]; rfl, ?_, DispatchTable.ownedIn_of_build hholds hb⟩
      rwa [(DispatchTable.build_eq_ok hb).1]
    | error f =>
      obtain ⟨e, he, aliasName, howner, hno, rfl⟩ := DispatchTable.unowned_of_build hholds hroot hb
      exact .inr ⟨e, he, aliasName, howner, hno, by rw [Except.bind, hb]; rfl⟩

theorem cleansUp_of_isCallOn {specs : List ContextSpec} {shown : ScenarioResult} {ks : List Call}
    {hs : List Hook} (h : List.Forall₂ (IsCallOn specs built (.scenario (c.scope (some shown)))) ks hs) :
    ∀ k ∈ ks, k.cleansUp = true := by
  induction h with
  | nil => nofun
  | cons hk _ ih =>
    obtain ⟨_, i, _, _, rfl⟩ := hk
    exact List.forall_mem_cons.2 ⟨rfl, ih⟩

theorem length_of_tidies (h : x.Tidies c built hooks t) :
    (t.calls.filter Call.cleansUp).length = (hooks.filter (ownedIn x.root.contexts)).length := by
  obtain ⟨early, late, shown, hcalls, hearly, hlate⟩ := h
  rw [hcalls, List.filter_append, List.filter_eq_nil_iff.2 fun k hk => by simp [hearly k hk],
    List.filter_eq_self.2 (cleansUp_of_isCallOn hlate), List.nil_append, hlate.length_eq]

/-- On contexts that are set up the hooks that are due are called up to the first that exits. -/
theorem tidies_runComposed {d : DispatchTable} {u : Trace} {o : Except Fault ScenarioResult}
    (hd : d.Fit) (hholds : d.arena.Holds x.root.contexts built)
    (hl : x.registry.lookup .afterScenario (some c.tags) = .ok hooks)
    (hu : u.early = true) (ht : t.accepted = true) (h : Ends (x.runComposed c d) l t o l') :
    x.Tidies c built hooks (u ++ t) ↔
      SparesRest (hooks.filter (ownedIn x.root.contexts)).length (u ++ t) := by
  obtain ⟨t₁, t₂, t₃, t₄, r₁, r₂, r₃, l₁, l₂, l₃, rfl, hproceed, hrecover, hclean, hend⟩ :=
    ends_runComposed h
  simp only [Trace.accepted_append, Bool.and_eq_true] at ht
  obtain ⟨shown, ready, hcalled⟩ := upToExit_cleanUp hd.rooted hl hclean ht.2.2.1
  rw [applicable_eq hholds hl] at hcalled
  have h₄ : Trace.calls t₄ = [] := by
    rcases hend with ⟨_, _, hk⟩ | ⟨rfl, _⟩
    · exact (closingActs_quiet.conclude hk).2.1
    · rfl
  have hearly : Trace.early (u ++ (t₁ ++ t₂)) = true := early_before_cleanUp hd hu hproceed hrecover
  have hsplit : u ++ (t₁ ++ (t₂ ++ (t₃ ++ t₄))) = (u ++ (t₁ ++ t₂)) ++ (t₃ ++ t₄) := by simp
  rw [hsplit]
  generalize u ++ (t₁ ++ t₂) = v at hearly
  have hcalls : Trace.calls (v ++ (t₃ ++ t₄)) = Trace.calls v ++ Trace.calls t₃ := by simp [h₄]
  have hlate : ∀ k ∈ Trace.calls t₃, k.cleansUp = true := by
    rw [← Trace.map_invocations]
    exact cleansUp_of_isCallOf hcalled.forall₂_take
  have hfilter : (Trace.invocations (v ++ (t₃ ++ t₄))).filter (·.1.cleansUp) =
      Trace.invocations t₃ := by
    rw [Trace.invocations_append, Trace.invocations_append, Trace.invocations_eq_nil h₄,
      List.append_nil, List.filter_append, List.filter_eq_nil_iff.2, List.filter_eq_self.2,
      List.nil_append]
    · exact fun p hp => hlate _ (Trace.map_invocations t₃ ▸ List.mem_map_of_mem hp)
    · intro p hp
      have hk := Trace.cleansUp_of_early hearly (Trace.map_invocations v ▸ List.mem_map_of_mem hp)
      simp [hk]
  rw [SparesRest, hfilter, ← hcalled.complete_iff]
  constructor
  · intro htidies
    have hlen := length_of_tidies htidies
    rw [← Trace.map_invocations, List.filter_map, List.length_map] at hlen
    have hlen : (Trace.invocations t₃).length = _ := hfilter ▸ hlen
    have hall := hcalled.forall₂_take
    rwa [hlen, List.take_length] at hall
  · intro hall
    rw [Trace.map_invocations] at hall
    exact ⟨_, _, shown, hcalls, fun k hk => Trace.cleansUp_of_early hearly hk,
      hall.imp fun _ _ => IsCallOf.isCallOn hholds⟩

/-- The cleanup of a scenario whose contexts were all constructed. The hooks that have an owner in the
tree, or none, are all called exactly when each definition has an owner in the tree, or none, unless there
is no such hook, and no hook exits before the last. Where a definition is without its context the scenario
is given up, and no hook is called. -/
theorem tidies_iff_of_run {scenario : Scenario} {feature : Option Feature} {id : Option String}
    {o : Except Fault ScenarioResult} (h : (x.run scenario feature id).Runs t o)
    (hb : x.BuildsAll (.named scenario feature id) t built)
    (hl : x.registry.lookup .afterScenario (some (Case.named scenario feature id).tags) = .ok hooks)
    (ht : t.accepted = true) :
    (x.Tidies (.named scenario feature id) built hooks t ↔
      (x.registry.ownedIn x.root.contexts = true ∨ hooks.filter (ownedIn x.root.contexts) = []) ∧
        SparesRest (hooks.filter (ownedIn x.root.contexts)).length t) ∧
    (x.registry.ownedIn x.root.contexts = false →
      ∃ r, o = .ok r ∧ x.Forsakes (.named scenario feature id) t r) := by
  obtain ⟨u, v, r, l, rfl, hs, hc, hlen⟩ := hb
  obtain ⟨l', hcase⟩ := runs_run_iff.1 h
  rw [Trace.accepted_append, Bool.and_eq_true] at ht
  obtain ⟨_, hquiet, _⟩ := quiet_setUp hs
  have hl₀ : l = Ledger.empty := (quiet_setUp hs).1
  subst hl₀
  rcases placed_of_setUp hs hc hlen ht.1 with
    ⟨d, rfl, hholds, howned⟩ | ⟨e, he, aliasName, howner, hno, rfl⟩
  · have hcomposed := (ends_after_setUp hs hcase).1 d rfl
    have hd : d.Fit := by
      obtain ⟨_, _, _, _, _, _, hfit⟩ := ends_setUp hs
      exact (hfit _ rfl).fit d rfl
    rw [howned]
    refine ⟨?_, nofun⟩
    rw [tidies_runComposed hd hholds hl (early_setUp hs) ht.2 hcomposed]
    exact ⟨fun hspares => ⟨.inl rfl, hspares⟩, And.right⟩
  · have habandon := (ends_after_setUp hs hcase).2 _ rfl rfl
    obtain ⟨r, rfl⟩ := ok_of_abandon habandon ht.2
    have hnone : ∀ a : Arena, none = some a → a.nodes ≠ [] := nofun
    obtain ⟨haborted, hfailed, herror⟩ := failed_abandon hnone habandon
    obtain ⟨hbare, hsteps⟩ := bare_abandon habandon
    have hcalls : Trace.calls (u ++ v) = [] := by rw [Trace.calls_append, hquiet, hbare]; rfl
    have hunowned : x.registry.ownedIn x.root.contexts = false := by
      refine Bool.eq_false_iff.2 fun hall => ?_
      have howned := List.all_eq_true.1 hall e he
      rw [howner, Option.all_some, hno] at howned
      cases howned
    refine ⟨?_, fun _ => ⟨r, rfl, haborted, hfailed, ⟨e, he, aliasName, howner, hno, herror⟩, hsteps,
      hcalls⟩⟩
    rw [hunowned]
    constructor
    · intro htidies
      have hlen := length_of_tidies htidies
      rw [hcalls] at hlen
      have hnil := List.length_eq_zero_iff.1 hlen.symm
      rw [hnil]
      exact ⟨.inr rfl, fun _ _ _ _ => Nat.zero_le _⟩
    · rintro ⟨hdue, _⟩
      refine ⟨[], [], r, hcalls, nofun, ?_⟩
      rw [hdue.resolve_left nofun]
      exact .nil

/-- All contexts of the hotel are there. A definition that belongs to the cellar, which is not one of them,
keeps the hooks after the scenario from being called. -/
theorem tidies_iff_of_run_sample :
    let hooks := [Sample.hook .afterScenario 1 "tidy",
      { Sample.hook .afterScenario 2 "lock" with owner := some "desk" }]
    let x := { Sample.executor hooks with
      registry := ⟨[{ Sample.definition 3 "stock" with owner := some "cellar" }], hooks, true⟩
      root := Sample.hotel }
    let w := Sample.surroundings (fun _ => none) fun _ => none
    let t := w.traceOf (x.run Sample.scenario none none)
    let c := Case.named Sample.scenario none none
    let built : List Instance := [⟨.null, []⟩, ⟨.null, []⟩]
    x.BuildsAll c t built ∧ hooks.filter (ownedIn x.root.contexts) = hooks ∧
      ¬ x.Tidies c built hooks t ∧
      ∃ r, w.resultOf (x.run Sample.scenario none none) = .ok r ∧ x.Forsakes c t r := by
  intro hooks x w t c built
  have hc : compose x.root = _ := Sample.compose_hotel
  have hb : x.BuildsAll c t built := by
    obtain ⟨v, hv⟩ := w.exists_traceOf_setUp x Sample.scenario none none
    refine ⟨_, v, _, _, hv, w.runs_traceOf _, ?_, rfl⟩
    unfold Surroundings.traceOf Executor.setUp
    rw [hc]
    rfl
  have hdue : hooks.filter (ownedIn x.root.contexts) = hooks := rfl
  have haccepted : t.accepted = true := by
    unfold t Surroundings.traceOf Executor.run Executor.runCase Executor.setUp
    rw [hc]
    decide +kernel
  obtain ⟨htidies, hforsakes⟩ := tidies_iff_of_run (w.runs_traceOf _) hb
    (Registry.lookup_of_unfiltered (by decide)) haccepted
  refine ⟨hb, hdue, fun hall => ?_, hforsakes rfl⟩
  rcases (htidies.1 hall).1 with howned | hnil
  · cases howned
  · cases hnil

end Executor
end Rehearsal
