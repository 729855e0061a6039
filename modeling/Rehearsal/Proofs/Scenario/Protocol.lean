import Rehearsal.Proofs.Scenario.Dispatch
import Rehearsal.Proofs.Scenario.Silence
import Rehearsal.Proofs.Scenario.StepCall
import Rehearsal.Proofs.Scenario.Turns

/-! The protocol of a step that is started: the hooks before it up to the first that fails, the step
itself if its text finds a definition, and all hooks after it. How the calls ended, and what matching came
to, decide on the status of the step. -/

namespace Rehearsal
set_option autoImplicit false

namespace Trace
variable {t u : Trace} {e : Option StageEvent} {n : Int}

/-- The moments in the stage of a step: those after its announcement, up to the next one. -/
def during (n : Int) (e : Option StageEvent) (t : Trace) : Trace :=
  (t.located some e).filterMap fun p => if p.1 = some n then some p.2 else none

theorem during_append : during n e (t ++ u) = t.during n e ++ u.during n (t.stages.getLast?.or e) := by
  rw [during, located_append, List.filterMap_append]
  rfl

theorem during_of_stages_nil (h : t.stages = []) :
    t.during n e = if e.bind (·.stepIndex) = some n then t else [] := by
  rw [during, located_of_stages_nil h, List.filterMap_some, List.filterMap_map]
  split
  · rename_i he
    simp [he]
  · rename_i he
    simp [he]

/-- What lies in other stages is left out. -/
theorem during_eq_nil (h : ∀ e' ∈ t.stages, e'.stepIndex ≠ some n)
    (he : e.bind (·.stepIndex) ≠ some n) : t.during n e = [] := by
  induction t generalizing e with
  | nil => rfl
  | cons m t ih =>
    rw [stages_cons] at h
    have ht : ∀ e' ∈ stages t, e'.stepIndex ≠ some n :=
      fun e' hm => h e' (List.mem_append_right _ hm)
    rw [during, located]
    split
    · rename_i e' hm
      refine ih ht (h e' ?_)
      rw [hm]
      exact List.mem_append_left _ (List.mem_singleton_self e')
    · simpa [he, during] using ih ht he

theorem during_append_of_ne (h : t.stages = []) (he : e.bind (·.stepIndex) ≠ some n) :
    during n e (t ++ u) = u.during n e := by
  have ht : t.during n e = [] := during_eq_nil (by rw [h]; exact nofun) he
  rw [during_append, ht, List.nil_append, h, List.getLast?_nil, Option.none_or]

theorem during_append_of_eq (h : t.stages = []) (he : e.bind (·.stepIndex) = some n) :
    during n e (t ++ u) = t ++ u.during n e := by
  rw [during_append, during_of_stages_nil h, if_pos he, h, List.getLast?_nil, Option.none_or]

theorem during_sublist : (t.during n e).Sublist t := by
  induction t generalizing e with
  | nil => exact .slnil
  | cons m t ih =>
    rw [during, located]
    split
    · exact ih.cons m
    · by_cases hn : e.bind (·.stepIndex) = some n
      · simpa [hn, during] using ih.cons_cons m
      · simpa [hn, during] using ih.cons m

/-- Nothing is called, and no result of a hook is handed over. -/
def Bare (t : Trace) : Prop := t.invocations = [] ∧ t.hooks = []

theorem bare_nil : Bare [] := ⟨rfl, rfl⟩

theorem Bare.append (ht : t.Bare) (hu : u.Bare) : Bare (t ++ u) := by
  simp [Bare, ht.1, ht.2, hu.1, hu.2]

theorem Bare.of_sublist (h : u.Sublist t) (ht : t.Bare) : u.Bare := by
  obtain ⟨hcalls, hhooks⟩ := ht
  refine ⟨List.sublist_nil.1 (hcalls ▸ h.filterMap _), ?_⟩
  have hsub : u.hooks.Sublist t.hooks := ((handed_sublist h).map _).filterMap _
  exact List.sublist_nil.1 (hhooks ▸ hsub)

theorem bare_of_offstage (h : t.offstage = true) : t.Bare := by
  refine ⟨invocations_eq_nil (calls_of_offstage h), ?_⟩
  rw [hooks, records_of_offstage h]
  rfl

end Trace

namespace Executor
variable {x : Executor} {c : Case} {l l' : Ledger} {t : Trace} {a : Arena} {scope : Scope}

/-- What calling a step, or not calling it, came to. -/
structure Tried (x : Executor) (s : Step) (ready : Bool) (called : Option (Call × Option Fault))
    (v : Verdict) : Prop where
  call : called.isSome = true ↔ ready = true ∧
    ∃ m, (x.matcher.matchText s.text x.registry.definitions).result = .ok (some m)
  callable : ∀ p ∈ called, p.1.args.all Argument.isValue = true ∧
    ∃ m, (x.matcher.matchText s.text x.registry.definitions).result = .ok (some m) ∧
      p.1.callable = m.definition.callable
  failed : v.status = .failed ↔ ready = false ∨
    (∃ f, (x.matcher.matchText s.text x.registry.definitions).result = .error f ∧
      (f.isA .ambiguousMatch = true ∨ f.isA .argumentCoercion = true)) ∨
    v.undefined = true ∧ x.policy.undefinedFails = true ∨ ∃ p ∈ called, failing p.2 = true
  pending : v.status = .pending ↔ v.status ≠ .failed ∧
    (v.undefined = true ∨ ∃ p ∈ called, p.2.any (·.family == .pending) = true)
  undefined : v.undefined = true ↔
    ready = true ∧ ∀ d ∈ x.registry.definitions, d.pattern.fullMatch? s.text = none

/-- The protocol of a step. The calls are those of hooks before it, of the step, and of hooks after it,
which are shown what it came to; the results that are handed over tell which hooks failed. -/
structure FollowsProtocol (x : Executor) (c : Case) (a : Arena) (n : Nat) (s : Step) (t : Trace)
    (r : StepResult) (before : List (Call × Option Fault)) (called : Option (Call × Option Fault))
    (after : List (Call × Option Fault)) : Prop where
  invocations : t.invocations = before ++ (called.toList ++ after)
  results : t.hooks.map (·.status == .failed) = (before ++ after).map (failing ·.2)
  opens : UpToFailure (IsCallOf a (stepScope c n s none)) failing (x.applicable .beforeStep c a) before
    (before.all fun p => !failing p.2)
  call : called.isSome = true ↔ (∀ p ∈ before, failing p.2 = false) ∧
    ∃ m, (x.matcher.matchText s.text x.registry.definitions).result = .ok (some m)
  callable : ∀ p ∈ called, p.1.args.all Argument.isValue = true ∧
    ∃ m, (x.matcher.matchText s.text x.registry.definitions).result = .ok (some m) ∧
      p.1.callable = m.definition.callable
  closes : ∃ shown, List.Forall₂ (IsCallOf a (stepScope c n s (some shown))) (after.map (·.1))
    (x.applicable .afterStep c a)
  failed : r.status = .failed ↔ (∃ p ∈ before, failing p.2 = true) ∨
    (∃ f, (x.matcher.matchText s.text x.registry.definitions).result = .error f ∧
      (f.isA .ambiguousMatch = true ∨ f.isA .argumentCoercion = true)) ∨
    r.undefined = true ∧ x.policy.undefinedFails = true ∨ (∃ p ∈ called, failing p.2 = true) ∨
    ∃ p ∈ after, failing p.2 = true
  pending : r.status = .pending ↔ r.status ≠ .failed ∧
    (r.undefined = true ∨ ∃ p ∈ called, p.2.any (·.family == .pending) = true)
  passed : r.status = .passed ↔ r.status ≠ .failed ∧ r.status ≠ .pending
  undefined : r.undefined = true ↔ (∀ p ∈ before, failing p.2 = false) ∧
    ∀ d ∈ x.registry.definitions, d.pattern.fullMatch? s.text = none

theorem isMatchFailure_iff {f : Fault} :
    isMatchFailure f = true ↔ f.isA .ambiguousMatch = true ∨ f.isA .argumentCoercion = true :=
  Bool.or_eq_true_iff

theorem countsAs_eq_pending_iff (place : String) (f : Option Fault) :
    (x.countsAs place f).1 = .pending ↔ f.any (·.family == .pending) = true := by
  cases f with
  | none => exact iff_of_false nofun nofun
  | some f => cases hf : f.family <;> simp [countsAs, hf]

theorem failing_of_pending {f : Option Fault} (h : f.any (·.family == .pending) = true) :
    failing f = false := by
  cases f with
  | none => cases h
  | some f => simpa [failing] using h

theorem tried_dispatch {d : DispatchTable} {s : Step} {v : Verdict}
    (hd : d.definitions = x.registry.definitions) (ht : t.tame = true)
    (h : Ends (x.dispatch c d s) l t (.ok v) l') :
    ∃ called : Option (Call × Option Fault), t.invocations = called.toList ∧ x.Tried s true called v := by
  have hnone : (x.matcher.matchText s.text x.registry.definitions).result = .ok none ↔ _ :=
    Matcher.matchText_eq_none_iff
  rcases ends_dispatch h with ⟨_, hoff, hv⟩ | ⟨m, i, u, w, r, hm, _, rfl, hu, hcall, hv⟩
  · refine ⟨none, Trace.invocations_eq_nil (Trace.calls_of_offstage hoff), ?_⟩
    have hv := hv v rfl
    rw [hd] at hv
    rcases hr : (x.matcher.matchText s.text x.registry.definitions).result with f | _ | m
    · rw [hr] at hv hnone
      obtain ⟨hf, rfl⟩ := hv
      have hundefined : ¬ ∀ d ∈ x.registry.definitions, d.pattern.fullMatch? s.text = none :=
        fun hall => by cases hnone.2 hall
      exact ⟨by simp [hr], fun _ hp => (by cases hp), by simpa [hr] using isMatchFailure_iff.1 hf, by simp,
        by simpa using hundefined⟩
    · rw [hr] at hv
      have hundefined := hnone.1 hr
      cases hv
      refine ⟨by simp [hr], fun _ hp => (by cases hp), ?_, ?_, iff_of_true rfl ⟨rfl, hundefined⟩⟩
      · cases hp : x.policy.undefinedFails <;> simp [unmatched, hp, hr]
      · cases hp : x.policy.undefinedFails <;> simp [unmatched, hp]
    · rw [hr] at hv
      exact hv.elim
  · rw [Trace.tame_append, Bool.and_eq_true] at ht
    obtain ⟨f, hcalled, _, hok⟩ := invocations_invoke hcall
    rw [hd] at hm
    have hv := Except.ok.inj (hv.trans (congrArg _ (hok ht.2)))
    subst hv
    have hundefined : ¬ ∀ d ∈ x.registry.definitions, d.pattern.fullMatch? s.text = none :=
      fun hall => by cases hm.symm.trans (hnone.2 hall)
    refine ⟨some (⟨m.definition.callable, stepArguments i m.args s.argument⟩, f), ?_, ?_⟩
    · rw [Trace.invocations_append, Trace.invocations_eq_nil (Trace.calls_of_offstage hu), hcalled]
      rfl
    · refine ⟨by simp [hm], ?_, ?_, ?_, by simpa using hundefined⟩
      · intro p hp
        cases hp
        exact ⟨isValue_stepArguments .., m, hm, rfl⟩
      · simpa [hm] using countsAs_eq_failed_iff _ f
      · have hpending := countsAs_eq_pending_iff (x := x) m.definition.location.display f
        have hfailed := countsAs_eq_failed_iff (x := x) m.definition.location.display f
        simp only [hpending, hfailed, ne_eq]
        simpa using fun hp => by simp [failing_of_pending hp]

/-- What the results of hooks tell is how their calls ended, and so is whether all went well. -/
theorem told_runHookList {halt : Bool} {hs : List Hook} {clean : Bool} (ha : a.nodes ≠ [])
    (hb : ∀ h ∈ hs, a.binds h.owner = true) (hx : x.emits = true) (ht : t.tame = true)
    (h : Ends (x.runHookList c a scope halt hs) l t (.ok clean) l') :
    clean = (t.invocations.all fun p => !failing p.2) ∧
      t.hooks.map (·.status == .failed) = t.invocations.map (failing ·.2) := by
  induction hs generalizing l t clean with
  | nil =>
    obtain ⟨rfl, hclean, _⟩ := ends_pure_iff.1 h
    cases hclean
    exact ⟨rfl, rfl⟩
  | cons k hs ih =>
    obtain ⟨hbk, hbs⟩ := List.forall_mem_cons.1 hb
    rw [runHookList] at h
    obtain ⟨u, v, s, l₁, rfl, hk, hrest⟩ := ends_bind_ok_iff.1 h
    rw [Trace.tame_append, Bool.and_eq_true] at ht
    obtain ⟨call, f, hcall, _, hrecords, hend⟩ := ends_runHook ha hbk ht.1 hk
    obtain rfl := hend s rfl
    have hfails : ((x.countsAs k.name f).1 == .failed) = failing f := by
      rw [Bool.eq_iff_iff, beq_iff_eq]
      exact countsAs_eq_failed_iff k.name f
    have htold : (Trace.hooks u).map (·.status == .failed) = [failing f] := by
      rw [Trace.hooks, hrecords hx]
      exact congrArg (fun b => [b]) hfails
    rw [hfails] at hrest
    rw [Trace.invocations_append, hcall, Trace.hooks_append, List.map_append, htold]
    cases hf : failing f with
    | false =>
      rw [hf, if_neg Bool.false_ne_true] at hrest
      obtain ⟨hclean, hmap⟩ := ih hbs ht.2 hrest
      refine ⟨?_, ?_⟩
      · simpa [hf] using hclean
      · simpa [hf] using hmap
    | true =>
      rw [hf, if_pos rfl] at hrest
      cases halt with
      | true =>
        obtain ⟨rfl, hclean, _⟩ := ends_pure_iff.1 hrest
        cases hclean
        exact ⟨by simp [hf], by simp [hf, Trace.invocations, Trace.hooks, Trace.records]⟩
      | false =>
        obtain ⟨clean', hclean, hlist⟩ := ends_bind_pure_ok_iff.1 hrest
        obtain ⟨_, hmap⟩ := ih hbs ht.2 hlist
        subst hclean
        exact ⟨by simp [hf], by simpa [hf] using hmap⟩

theorem exists_failing_iff {ps : List (Call × Option Fault)} :
    (ps.all fun p => !failing p.2) = false ↔ ∃ p ∈ ps, failing p.2 = true := by
  simp [List.all_eq_false]

section Step
variable {d : DispatchTable} {n : Nat} {s : Step} (hd : d.Fit) (ho : x.Orderly c)
  (hx : x.emits = true) (ht : t.tame = true)
include hd ho hx ht

theorem tried_attempt {v : Verdict} (hdefinitions : d.definitions = x.registry.definitions)
    (h : Ends (x.attempt c d n s) l t (.ok v) l') :
    ∃ (before : List (Call × Option Fault)) (called : Option (Call × Option Fault)),
      t.invocations = before ++ called.toList ∧
      t.hooks.map (·.status == .failed) = before.map (failing ·.2) ∧
      UpToFailure (IsCallOf d.arena (stepScope c n s none)) failing
        (x.applicable .beforeStep c d.arena) before (before.all fun p => !failing p.2) ∧
      x.Tried s (before.all fun p => !failing p.2) called v := by
  obtain ⟨u, w, ready, l₁, rfl, hbefore, hstep⟩ := ends_bind_ok_iff.1 h
  rw [Trace.tame_append, Bool.and_eq_true] at ht
  have hlist := ends_runHooks ho rfl hbefore
  have hopens := upToFailure_runHookList hd.rooted binds_of_mem_applicable hlist ht.1
  obtain ⟨hready, hresults⟩ := told_runHookList hd.rooted binds_of_mem_applicable hx ht.1 hlist
  rw [Trace.invocations_append, Trace.hooks_append, List.map_append, hresults]
  suffices htried : ∃ called : Option (Call × Option Fault), Trace.invocations w = called.toList ∧
      Trace.hooks w = [] ∧ x.Tried s ready called v by
    obtain ⟨called, hcalled, hhooks, htried⟩ := htried
    refine ⟨Trace.invocations u, called, by rw [hcalled], ?_, hready ▸ hopens, hready ▸ htried⟩
    rw [hhooks]
    exact List.append_nil _
  cases ready with
  | true =>
    obtain ⟨called, hcalled, htried⟩ := tried_dispatch hdefinitions ht.2 hstep
    have hsilent : Trace.handed w = [] :=
      (acts_silent (x := x) (c := c)).dispatch hd (fun _ _ _ => trivial) hstep
    refine ⟨called, hcalled, ?_, htried⟩
    rw [Trace.hooks, Trace.records, hsilent]
    rfl
  | false =>
    rw [if_neg Bool.false_ne_true, ends_get_bind_iff] at hstep
    obtain ⟨rfl, hv, _⟩ := ends_pure_iff.1 hstep
    cases hv
    exact ⟨none, rfl, rfl, by simp, fun _ hp => (by cases hp), by simp, by simp, by simp⟩

/-- The hooks after a step are all called, and the step fails if one of them does. -/
theorem closes_review {v v' : Verdict} (h : Ends (x.review c d n s v) l t (.ok v') l') :
    ∃ shown, List.Forall₂ (IsCallOf d.arena (stepScope c n s (some shown)))
        (t.invocations.map (·.1)) (x.applicable .afterStep c d.arena) ∧
      t.hooks.map (·.status == .failed) = t.invocations.map (failing ·.2) ∧
      v'.undefined = v.undefined ∧
      (v'.status = .failed ↔ v.status = .failed ∨ ∃ p ∈ t.invocations, failing p.2 = true) ∧
      (v'.status ≠ .failed → v'.status = v.status) := by
  obtain ⟨u, w, clean, l₁, rfl, hafter, hrest⟩ := ends_bind_ok_iff.1 h
  obtain rfl : w = [] := by
    split at hrest
    · rw [ends_get_bind_iff] at hrest
      exact (ends_pure_iff.1 hrest).1
    · exact (ends_pure_iff.1 hrest).1
  rw [List.append_nil] at ht ⊢
  have hlist := ends_runHooks ho rfl hafter
  obtain ⟨hclean, hresults⟩ := told_runHookList hd.rooted binds_of_mem_applicable hx ht hlist
  refine ⟨stepResult c n s v, ?_, hresults, ?_⟩
  · rw [Trace.map_invocations]
    exact forall₂_runHookList hd.rooted binds_of_mem_applicable hlist ht
  · rw [← exists_failing_iff, ← hclean]
    split at hrest
    · rename_i hcase
      rw [ends_get_bind_iff] at hrest
      cases (ends_pure_iff.1 hrest).2.1
      rw [Bool.and_eq_true, Bool.not_eq_true'] at hcase
      exact ⟨rfl, iff_of_true rfl (.inr hcase.1), fun hno => absurd rfl hno⟩
    · rename_i hcase
      cases (ends_pure_iff.1 hrest).2.1
      refine ⟨rfl, ?_, fun _ => rfl⟩
      cases clean with
      | true => simp
      | false => simpa using hcase

theorem followsProtocol_runStep {r : StepResult} (hdefinitions : d.definitions = x.registry.definitions)
    (h : Ends (x.runStep c d n s) l t (.ok r) l') :
    ∃ before called after, x.FollowsProtocol c d.arena n s t r before called after := by
  obtain ⟨_, _, hran⟩ := listed_of_runStep hd h
  obtain ⟨u, w, v, l₁, rfl, hattempt, hk⟩ := ends_bind_ok_iff.1 h
  obtain ⟨w, z, v', l₂, rfl, hreview, hk'⟩ := ends_bind_ok_iff.1 hk
  obtain ⟨_, rfl, hrecord⟩ := ends_bind_pure_ok_iff.1 hk'
  simp only [Trace.tame_append, Bool.and_eq_true] at ht
  obtain ⟨before, called, hcalls, hresults, hopens, htried⟩ :=
    tried_attempt hd ho hx ht.1 hdefinitions hattempt
  obtain ⟨shown, hcloses, htold, hundefined, hfailed, hkept⟩ := closes_review hd ho hx ht.2.1 hreview
  have hrecorded := (ends_recordStep hrecord).2
  have hz : Trace.hooks z = [] := by
    rw [Trace.hooks, hrecorded.records hx]
    rfl
  have hready : (before.all fun p => !failing p.2) = true ↔ ∀ p ∈ before, failing p.2 = false := by
    simp
  have hstatus : (stepResult c n s v').status = v'.status := rfl
  have hflag : (stepResult c n s v').undefined = v.undefined := hundefined
  refine ⟨before, called, Trace.invocations w, ?_⟩
  constructor
  case invocations =>
    rw [Trace.invocations_append, Trace.invocations_append, hcalls,
      Trace.invocations_eq_nil hrecorded.calls, List.append_nil, List.append_assoc]
  case results =>
    rw [Trace.hooks_append, Trace.hooks_append, hz, List.append_nil, List.map_append, hresults, htold,
      List.map_append]
  case opens => exact hopens
  case call => rw [htried.call, hready]
  case callable => exact htried.callable
  case closes => exact ⟨shown, hcloses⟩
  case failed =>
    rw [hstatus, hfailed, htried.failed, exists_failing_iff, hflag]
    simp only [or_assoc]
  case pending =>
    rw [hstatus, hflag]
    constructor
    · intro hp
      have hne : v'.status ≠ .failed := by simp [hp]
      exact ⟨hne, (htried.pending.1 (hkept hne ▸ hp)).2⟩
    · rintro ⟨hne, hp⟩
      have hv := hkept hne
      rw [hv]
      exact htried.pending.2 ⟨hv ▸ hne, hp⟩
  case passed =>
    have hpassed : ∀ k : Status, k ≠ .skipped → (k = .passed ↔ k ≠ .failed ∧ k ≠ .pending) := by
      intro k
      cases k <;> simp
    exact hpassed _ hran
  case undefined => rw [hflag, htried.undefined, hready]

end Step

theorem FollowsProtocol.append {n : Nat} {s : Step} {r : StepResult} {u : Trace}
    {before after : List (Call × Option Fault)} {called : Option (Call × Option Fault)}
    (h : x.FollowsProtocol c a n s t r before called after) (hu : u.Bare) :
    x.FollowsProtocol c a n s (t ++ u) r before called after := by
  refine { h with invocations := ?_, results := ?_ }
  · rw [Trace.invocations_append, hu.1, List.append_nil, h.invocations]
  · rw [Trace.hooks_append, hu.2, List.append_nil, h.results]

theorem FollowsProtocol.of_loud {n : Nat} {s : Step} {r : StepResult}
    {before after : List (Call × Option Fault)} {called : Option (Call × Option Fault)}
    (h : x.loud.FollowsProtocol c a n s t r before called after) :
    x.FollowsProtocol c a n s t r before called after :=
  ⟨h.invocations, h.results, h.opens, h.call, h.callable, h.closes, h.failed, h.pending, h.passed,
    h.undefined⟩

theorem bare_of_hands {r : Record} {f : Option Fault} (hr : r.hook? = none) (h : x.Hands r t f) :
    t.Bare := by
  refine ⟨Trace.invocations_eq_nil h.calls, ?_⟩
  cases h with
  | silent _ => rfl
  | loud f b _ => simp [Trace.hooks, Trace.records, Trace.handed, Moment.handed?, hr]

/-- An announcement is not among the moments of its stage. -/
theorem Hands.during_append {e : Option StageEvent} {e' : StageEvent} {n : Int} {u : Trace}
    (hx : x.emits = true) (h : x.Hands (.stage e') t none) :
    Trace.during n e (t ++ u) = u.during n (some e') := by
  cases h with
  | silent hsilent => exact nomatch hsilent.symm.trans hx
  | loud _ b _ => rfl

theorem stepIndex_stepEvent_ne {i j : Nat} (h : i ≠ j) :
    (some (stepEvent c i)).bind (·.stepIndex) ≠ some (j : Int) := by
  simp only [Option.bind_some, stepEvent, ne_eq, Option.some.injEq]
  omega

/-- The steps of some that are counted from `index` on follow the protocol, each in its stage if there is
one. -/
def Abide (x : Executor) (c : Case) (a : Arena) (index : Nat) (ss : List Step) (e : Option StageEvent)
    (t : Trace) (rs : List StepResult) : Prop :=
  ∀ (n : Nat) (s : Step), ss[n]? = some s → stepEvent c ((index + n : Nat) : Int) ∈ t.stages →
    ∃ r before called after, rs[n]? = some r ∧
      x.FollowsProtocol c a (index + n) s (t.during ((index + n : Nat) : Int) e) r before called after

namespace Abide
variable {index : Nat} {s : Step} {ss : List Step} {e : Option StageEvent} {r : StepResult}
  {rs : List StepResult} {u v w : Trace}

/-- A step that is not announced is passed over. -/
theorem pass (h : x.Abide c a (index + 1) ss e t rs) (hu : u.stages = [])
    (he : ∀ j : Nat, index ≤ j → e.bind (·.stepIndex) ≠ some (j : Int))
    (hstages : ∀ e ∈ t.stages, ∃ j, index + 1 ≤ j ∧ e = stepEvent c (j : Nat)) :
    x.Abide c a index (s :: ss) e (u ++ t) (r :: rs) := by
  intro n s' hs hstage
  rw [Trace.stages_append, hu, List.nil_append] at hstage
  cases n with
  | zero =>
    obtain ⟨j, hj, heq⟩ := hstages _ hstage
    exact absurd (congrArg StageEvent.stepIndex heq) (stepIndex_stepEvent_ne (by omega))
  | succ n =>
    have hshift : index + (n + 1) = index + 1 + n := by omega
    rw [hshift] at hstage ⊢
    rw [Trace.during_append_of_ne hu (he _ (by omega))]
    exact h n s' hs hstage

/-- What comes between the stages is bare, and is no matter to the steps on either side. -/
theorem cons {before after : List (Call × Option Fault)} {called : Option (Call × Option Fault)}
    (h : x.Abide c a (index + 1) ss (some (stepEvent c index)) t rs) (hx : x.emits = true)
    (hu : u.stages = []) (he : ∀ j : Nat, index ≤ j → e.bind (·.stepIndex) ≠ some (j : Int))
    (hv : x.Hands (.stage (stepEvent c index)) v none) (hw : w.stages = [])
    (hprotocol : x.FollowsProtocol c a index s w r before called after)
    (hbare : (t.during index (some (stepEvent c index))).Bare) :
    x.Abide c a index (s :: ss) e (u ++ (v ++ (w ++ t))) (r :: rs) := by
  have hstages : Trace.Follows none v [stepEvent c index] := hv.follows hx
  intro n s' hs hstage
  rw [Trace.stages_append, hu, Trace.stages_append, hstages.1, Trace.stages_append, hw,
    List.nil_append, List.nil_append, List.singleton_append] at hstage
  cases n with
  | zero =>
    cases hs
    refine ⟨r, before, called, after, rfl, ?_⟩
    rw [Nat.add_zero, Trace.during_append_of_ne hu (he index (Nat.le_refl _)),
      hv.during_append hx, Trace.during_append_of_eq hw rfl]
    exact hprotocol.append hbare
  | succ n =>
    have hshift : index + (n + 1) = index + 1 + n := by omega
    have hne : index ≠ index + 1 + n := by omega
    rw [hshift] at hstage ⊢
    have hstage := (List.mem_cons.1 hstage).resolve_left fun heq =>
      stepIndex_stepEvent_ne (c := c) hne (congrArg StageEvent.stepIndex heq).symm
    rw [Trace.during_append_of_ne hu (he _ (by omega)), hv.during_append hx,
      Trace.during_append_of_ne hw (stepIndex_stepEvent_ne hne)]
    exact h n s' hs hstage

end Abide

theorem Looks.stages {skip stop : Bool} (h : x.Looks skip l t stop) : t.stages = [] := by
  rw [Trace.stages, Trace.records_of_offstage h.offstage]
  rfl

theorem stages_of_skipStep {index : Nat} {s : Step} {o : Except Fault Unit} (hx : x.emits = true)
    (h : Ends (x.skipStep c index s) l t o l') : t.stages = [] := by
  rw [Trace.stages, (ends_recordStep h).2.records hx]
  rfl

section Loop
variable {d : DispatchTable} {index : Nat} {skip : Bool} {ss : List Step} (hd : d.Fit)
  (hx : x.emits = true)
include hd hx

theorem stages_runSteps (h : Ends (x.runSteps c d index skip ss) l t (.ok ()) l') :
    ∀ e ∈ t.stages, ∃ j, index ≤ j ∧ e = stepEvent c (j : Nat) := by
  induction ss generalizing l t index skip with
  | nil =>
    obtain ⟨rfl, _⟩ := ends_pure_iff.1 h
    exact nofun
  | cons s ss ih =>
    have hlater : ∀ {e : StageEvent}, (∃ j, index + 1 ≤ j ∧ e = stepEvent c (j : Nat)) →
        ∃ j, index ≤ j ∧ e = stepEvent c (j : Nat) := by
      rintro e ⟨j, hj, he⟩
      exact ⟨j, by omega, he⟩
    intro e he
    cases ends_runSteps_cons h with
    | skips u v w l₁ hs hr hrest =>
      rw [Trace.stages_append, hs.stages, Trace.stages_append, stages_of_skipStep hx hr] at he
      exact hlater (ih hrest e he)
    | starts u v w z r l₁ hs hstage hr hrest =>
      have hv : Trace.Follows none v [stepEvent c index] := (ends_transition hstage).2.follows hx
      rw [Trace.stages_append, hs.stages, Trace.stages_append, hv.1, Trace.stages_append,
        (within_runStep hd hr).stages, List.nil_append, List.nil_append, List.singleton_append,
        List.mem_cons] at he
      rcases he with rfl | he
      · exact ⟨index, Nat.le_refl _, rfl⟩
      · exact hlater (ih hrest e he)

/-- Once later steps have their turns nothing more is seen of those before them. -/
theorem bare_runSteps {j : Nat} (hj : j < index) {e : Option StageEvent}
    (h : Ends (x.runSteps c d index skip ss) l t (.ok ()) l') : (t.during j e).Bare := by
  induction ss generalizing l t index skip e with
  | nil =>
    obtain ⟨rfl, _⟩ := ends_pure_iff.1 h
    exact Trace.bare_nil
  | cons s ss ih =>
    have hskipping : ∀ {u : Trace} {stop : Bool} {e : Option StageEvent}, x.Looks skip l u stop →
        (u.during j e).Bare :=
      fun hs => (Trace.bare_of_offstage hs.offstage).of_sublist Trace.during_sublist
    cases ends_runSteps_cons h with
    | skips u v w l₁ hs hr hrest =>
      have hv := bare_of_hands rfl (ends_recordStep hr).2
      rw [Trace.during_append, Trace.during_append]
      apply (hskipping hs).append
      exact (hv.of_sublist Trace.during_sublist).append (ih (by omega) hrest)
    | starts u v w z r l₁ hs hstage hr hrest =>
      have hstaged := (ends_transition hstage).2
      have hv : Trace.Follows none v [stepEvent c index] := hstaged.follows hx
      have hw : Trace.during j (some (stepEvent c index)) w = [] :=
        Trace.during_eq_nil (by rw [(within_runStep hd hr).stages]; exact nofun)
          (stepIndex_stepEvent_ne (by omega))
      rw [Trace.during_append, Trace.during_append, Trace.during_append, hv.1]
      apply (hskipping hs).append
      apply ((bare_of_hands rfl hstaged).of_sublist Trace.during_sublist).append
      exact Trace.Bare.append (hw ▸ Trace.bare_nil) (ih (by omega) hrest)

/-- Each step of the loop that is announced follows the protocol in its stage. -/
theorem followsProtocol_runSteps (ho : x.Orderly c) (hdefinitions : d.definitions = x.registry.definitions)
    (ht : t.tame = true) {e : Option StageEvent}
    (he : ∀ j : Nat, e.bind (·.stepIndex) = some (j : Int) → j < index)
    (h : Ends (x.runSteps c d index skip ss) l t (.ok ()) l') :
    ∃ rs, l'.steps = l.steps ++ rs ∧ x.Abide c d.arena index ss e t rs := by
  induction ss generalizing l t index skip e with
  | nil =>
    obtain ⟨rfl, _, rfl⟩ := ends_pure_iff.1 h
    exact ⟨[], (List.append_nil _).symm, fun _ _ hs => nomatch hs⟩
  | cons s ss ih =>
    have hother : ∀ j : Nat, index ≤ j → e.bind (·.stepIndex) ≠ some (j : Int) := by
      intro j hj hindex
      have hlt := he j hindex
      omega
    cases ends_runSteps_cons h with
    | skips u v w l₁ hs hr hrest =>
      have huv : Trace.stages (u ++ v) = [] := by
        rw [Trace.stages_append, hs.stages, stages_of_skipStep hx hr]
        rfl
      obtain ⟨rfl, _⟩ := ends_recordStep hr
      simp only [Trace.tame_append, Bool.and_eq_true] at ht
      have he' : ∀ j : Nat, e.bind (·.stepIndex) = some (j : Int) → j < index + 1 :=
        fun j hj => Nat.lt_succ_of_lt (he j hj)
      obtain ⟨rs, hrs, hall⟩ := ih ht.2.2 he' hrest
      refine ⟨.skipped c.id index s :: rs, by rw [hrs]; exact List.append_assoc .., ?_⟩
      rw [← List.append_assoc]
      exact hall.pass huv hother (stages_runSteps hd hx hrest)
    | starts u v w z r l₁ hs hstage hr hrest =>
      simp only [Trace.tame_append, Bool.and_eq_true] at ht
      have he' : ∀ j : Nat, (some (stepEvent c index)).bind (·.stepIndex) = some (j : Int) →
          j < index + 1 := by
        intro j hj
        by_contra hlt
        exact stepIndex_stepEvent_ne (by omega) hj
      obtain ⟨rs, hrs, hall⟩ := ih ht.2.2.2 he' hrest
      obtain ⟨hl₁, _⟩ := listed_of_runStep hd hr
      obtain ⟨before, called, after, hprotocol⟩ :=
        followsProtocol_runStep hd ho hx ht.2.2.1 hdefinitions hr
      refine ⟨r :: rs, by rw [hrs, hl₁]; exact List.append_assoc .., ?_⟩
      exact hall.cons hx hs.stages hother (ends_transition hstage).2
        (within_runStep hd hr).stages hprotocol (bare_runSteps hd hx (Nat.lt_succ_self _) hrest)

end Loop

theorem stepIndex_stageEvent_ne {stage : Stage} {n : Int} :
    (some (stageEvent c stage)).bind (·.stepIndex) ≠ some n :=
  nofun

section Composed
variable {d : DispatchTable} (hd : d.Fit) (ho : x.Orderly c) (hx : x.emits = true)

include hx in
/-- The stages from the cleanup on are no stages of steps. -/
theorem during_cleanUp (ha : a.nodes ≠ []) {u : Trace} {e : Option StageEvent} {n : Int}
    (hu : ∀ e ∈ Trace.stages u, e.stepIndex ≠ some n) (h : Ends (x.cleanUp c a) l t (.ok ()) l') :
    Trace.during n e (t ++ u) = [] := by
  have hstages : t.stages = [stageEvent c .runningAfterHooks] :=
    (follows_cleanUp ha hx h : Trace.Follows none t _).1
  obtain ⟨v, w, _, l₁, rfl, hstage, hk⟩ := ends_bind_ok_iff.1 h
  have hv : x.Hands (.stage (stageEvent c .runningAfterHooks)) v none := (ends_transition hstage).2
  have hw : Trace.stages w = [] := by
    rw [Trace.stages_append, (hv.follows hx : Trace.Follows none v _).1] at hstages
    exact (List.cons.inj hstages).2
  rw [List.append_assoc, hv.during_append hx, Trace.during_append_of_ne hw stepIndex_stageEvent_ne]
  exact Trace.during_eq_nil hu stepIndex_stageEvent_ne

include hd ho hx

theorem followsProtocol_proceedThrough (hdefinitions : d.definitions = x.registry.definitions)
    (ht : t.tame = true) (h : Ends (x.proceedThrough c d) l t (.ok ()) l') :
    ∃ rs, l'.steps = l.steps ++ rs ∧ ∀ (n : Nat) (s : Step) (e : Option StageEvent),
      c.scenario.steps[n]? = some s → stepEvent c n ∈ t.stages → ∃ r before called after,
        rs[n]? = some r ∧
          x.FollowsProtocol c d.arena n s (t.during n e) r before called after := by
  cases proceedRun_of_ends h with
  | @proceeded u v w ready _ l₂ _ hstage hhooks hsteps =>
    have hu : x.Hands (.stage (stageEvent c .runningBeforeHooks)) u none := (ends_transition hstage).2
    have hv : Trace.Within (stageEvent c .runningBeforeHooks) v := within_beforeHooks hd hhooks
    have hl₂ : l₂.steps = l.steps := keepsSteps_runHooks hd rfl hhooks
    simp only [Trace.tame_append, Bool.and_eq_true] at ht
    obtain ⟨rs, hrs, hall⟩ := followsProtocol_runSteps hd hx ho hdefinitions ht.2.2
      (e := some (stageEvent c .runningBeforeHooks)) (fun _ => nofun) hsteps
    refine ⟨rs, by rw [hrs, hl₂], ?_⟩
    intro n s e hs hstaged
    rw [Trace.stages_append, (hu.follows hx : Trace.Follows none u _).1, Trace.stages_append, hv.stages,
      List.nil_append, List.singleton_append] at hstaged
    have hstaged := (List.mem_cons.1 hstaged).resolve_left fun heq =>
      nomatch congrArg StageEvent.stepIndex heq
    rw [hu.during_append hx, Trace.during_append_of_ne hv.stages stepIndex_stageEvent_ne]
    have hn := hall n s hs
    simp only [Nat.zero_add] at hn
    exact hn hstaged

theorem followsProtocol_runComposed {r : ScenarioResult}
    (hdefinitions : d.definitions = x.registry.definitions) (ht : t.tame = true)
    (hk : t.taken = true) (h : Ends (x.runComposed c d) Ledger.empty t (.ok r) l') {n : Nat} {s : Step}
    {e : Option StageEvent} (hs : c.scenario.steps[n]? = some s)
    (hstaged : stepEvent c n ∈ t.stages) : ∃ result before called after, r.steps[n]? = some result ∧
      x.FollowsProtocol c d.arena n s (t.during n e) result before called after := by
  obtain ⟨t₁, t₂, t₃, t₄, r₁, l₁, l₂, l₃, rfl, hproceed, hrecover, hclean, hconclude⟩ :=
    parts_of_runComposed h
  simp only [Trace.tame_append, Trace.taken_append, Bool.and_eq_true] at ht hk
  obtain ⟨_, rfl⟩ := (runActs_onlyCutBySink.proceedThrough hd hproceed ho ht.1).ok hk.1
  obtain ⟨rfl, _, rfl⟩ := ends_pure_iff.1 hrecover
  obtain ⟨rs, hrs, hall⟩ := followsProtocol_proceedThrough hd ho hx hdefinitions ht.1 hproceed
  obtain rfl : r.steps = rs := by
    rw [(idle_conclude hconclude).2, steps_cleanUp hd.rooted hclean, hrs]
    rfl
  have hlast : Trace.stages t₄ = [stageEvent c r.stage] :=
    (follows_conclude (e := stageEvent c .runningAfterHooks) hx hconclude).1
  have hafter : Trace.stages t₃ = [stageEvent c .runningAfterHooks] :=
    (follows_cleanUp hd.rooted hx hclean : Trace.Follows none t₃ _).1
  rw [List.nil_append, Trace.stages_append, Trace.stages_append, hlast, hafter] at hstaged
  have hstaged := (List.mem_append.1 hstaged).resolve_right (by simp [stepEvent, stageEvent])
  have hrest : ∀ {e : Option StageEvent}, Trace.during n e (t₃ ++ t₄) = [] :=
    during_cleanUp hx hd.rooted (by simp [hlast, stageEvent]) hclean
  rw [List.nil_append, Trace.during_append, hrest, List.append_nil]
  exact hall n s e hs hstaged

omit hd

/-- No step is started where no contexts are set up. -/
theorem exists_prepared_of_stages {o : Except Fault ScenarioResult} (ht : t.tame = true)
    (hk : t.taken = true) (h : Ends (x.runCase c) Ledger.empty t o l') {n : Nat}
    (hstaged : stepEvent c n ∈ t.stages) : ∃ d, x.Prepared c t d := by
  cases caseRun_of_ends h with
  | refused t hs =>
    obtain ⟨_, u, v, rfl, _, hu, _⟩ := ends_setUp hs
    rw [Trace.taken_append, Bool.and_eq_true] at hk
    exact nomatch (cutBy_of_hands hu).eq_none hk.1
  | escaped t hs he => exact nomatch he.symm.trans (contained_of_setUp hs ht)
  | abandoned u v b hs ha hv =>
    exfalso
    rw [Trace.tame_append, Bool.and_eq_true] at ht
    rw [Trace.taken_append, Bool.and_eq_true] at hk
    obtain ⟨v, w, r, es, _, rfl, hes, hfollows, hlast, _⟩ := course_abandon ha ho hx ht.2 hk.2 hv
    rw [Trace.stages_append, (follows_setUp hx hs).1, Trace.stages_append, hfollows.1,
      (hlast none).1] at hstaged
    rcases hes with rfl | rfl <;> simp [stepEvent, stageEvent] at hstaged
  | composed u v d hs hd hv => exact ⟨d, u, v, _, rfl, hs⟩

end Composed

/-- Every step that is started in a run follows the protocol in its stage. -/
theorem followsProtocol_of_run {scenario : Scenario} {feature : Option Feature} {id : Option String}
    {o : Except Fault ScenarioResult} (h : (x.run scenario feature id).Runs t o)
    (ho : x.Orderly (.named scenario feature id)) (ht : t.tame = true) (hk : t.taken = true) :
    ∃ (full : Trace) (r : ScenarioResult), o = .ok r ∧ x.Voiced t full ∧
      (x.loud.run scenario feature id).Runs full o ∧ ∀ (n : Nat) (s : Step),
        scenario.steps[n]? = some s → stepEvent (.named scenario feature id) n ∈ full.stages →
          ∃ d result before called after, x.loud.Prepared (.named scenario feature id) full d ∧
            r.steps[n]? = some result ∧ x.FollowsProtocol (.named scenario feature id) d.arena n s
              (full.during n none) result before called after := by
  obtain ⟨full, hvoiced, hfull⟩ := exists_voiced_of_runs h
  have hfull' := hfull
  cases o with
  | error f =>
    obtain ⟨r, hr⟩ := raised_run h ho ht
    cases Option.isNone_iff_eq_none.1 (List.all_eq_true.1 hk _ hr)
  | ok r =>
    refine ⟨full, r, rfl, hvoiced, hfull', ?_⟩
    intro n s hs hstaged
    have ho' : x.loud.Orderly (.named scenario feature id) := ⟨ho.selects, ho.reports⟩
    have htame := Trace.tame_of_unspoken hvoiced.rest ht
    have htaken := hvoiced.taken_of_taken hk
    obtain ⟨l', hc⟩ := runs_run_iff.1 hfull
    obtain ⟨d, hp⟩ := exists_prepared_of_stages (x := x.loud) ho' rfl htame htaken hc hstaged
    obtain ⟨hd, u, v, rfl, hsetup, hrun⟩ := hp.ends hc
    rw [Trace.tame_append, Bool.and_eq_true] at htame
    rw [Trace.taken_append, Bool.and_eq_true] at htaken
    have hu : Trace.stages u = [stageEvent (.named scenario feature id) .initializing] :=
      (follows_setUp (x := x.loud) rfl hsetup).1
    rw [Trace.stages_append, hu, List.singleton_append] at hstaged
    have hstaged := (List.mem_cons.1 hstaged).resolve_left fun heq =>
      nomatch congrArg StageEvent.stepIndex heq
    have hbefore : Trace.during n none u = [] :=
      Trace.during_eq_nil (by simp [hu, stageEvent]) nofun
    obtain ⟨_, _, _, hdefinitions, _⟩ := exists_built_of_setUp hsetup
    obtain ⟨result, before, called, after, hresult, hprotocol⟩ :=
      followsProtocol_runComposed (x := x.loud) hd ho' rfl hdefinitions htame.2 htaken.2 hrun hs hstaged
    refine ⟨d, result, before, called, after, hp, hresult, ?_⟩
    rw [Trace.during_append, hbefore, List.nil_append]
    exact hprotocol.of_loud

/-- A hook after the step fails, and the step with it. -/
theorem followsProtocol_of_run_sample :
    let hooks := [Sample.hook .beforeStep 1 "reserve", Sample.hook .afterStep 2 "pay"]
    let x := { Sample.executor hooks with registry := ⟨[Sample.definition 3 "book"], hooks, true⟩ }
    let w := Sample.surroundings (fun _ => none)
      fun n => if n = 2 then some (.ofKind "ValueError" "no card") else none
    let t := w.traceOf (x.run Sample.scenario none none)
    let c := Case.named Sample.scenario none none
    t.taken = true ∧ stepEvent c (0 : Nat) ∈ t.stages ∧
      ∃ (s : Step) (a : Arena) (result : StepResult) (before after : List (Call × Option Fault))
        (called : Option (Call × Option Fault)),
        x.FollowsProtocol c a 0 s (t.during 0 none) result before called after := by
  intro hooks x w t c
  have hc : compose x.root = _ := compose_leaf ..
  have hseen : t.taken = true ∧ stepEvent c (0 : Nat) ∈ t.stages := by
    unfold t Surroundings.traceOf Executor.run Executor.runCase Executor.setUp
    rw [hc]
    exact ⟨by decide +kernel, List.mem_iff_getElem?.2 ⟨2, by rfl⟩⟩
  have ho : x.Orderly c := ⟨fun _ => ⟨_, Registry.lookup_of_unfiltered (by decide)⟩,
    CoercionTable.reports_standard⟩
  have ht : t.tame = true := by
    refine Surroundings.tame_traceOf _ (Sample.tame fun n f hf => ?_)
    split at hf
    · rw [← Option.some.inj hf]
      exact nofun
    · cases hf
  obtain ⟨full, r, _, hvoiced, _, hall⟩ :=
    followsProtocol_of_run (w.runs_traceOf _) ho ht hseen.1
  rw [hvoiced.same rfl] at hall
  obtain ⟨d, result, before, called, after, _, _, hprotocol⟩ := hall 0 _ rfl hseen.2
  exact ⟨hseen.1, hseen.2, _, d.arena, result, before, after, called, hprotocol⟩

end Executor
end Rehearsal
