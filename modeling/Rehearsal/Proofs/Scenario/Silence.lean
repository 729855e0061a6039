import Rehearsal.Proofs.Scenario.Parts

/-! Runs of which no one takes the records. Such a run does what it does where every record is taken,
except that it hands nothing over: whatever it comes to, the other run can come to as well. -/

namespace Rehearsal
set_option autoImplicit false

/-- What is left of a trace without the records that are handed over. -/
def Trace.unspoken (t : Trace) : Trace := t.filter fun m => m.handed?.isNone

namespace Trace
variable {t u : Trace}

@[simp] theorem unspoken_append : unspoken (t ++ u) = t.unspoken ++ u.unspoken :=
  List.filter_append ..

theorem unspoken_unspoken : t.unspoken.unspoken = t.unspoken := by
  rw [unspoken, unspoken, List.filter_filter]
  simp

theorem unspoken_of_handed_nil (h : t.handed = []) : t.unspoken = t := by
  rw [handed, List.filterMap_eq_nil_iff] at h
  exact List.filter_eq_self.2 fun m hm => by rw [h m hm]; rfl

/-- What holds of every record that is handed over, and of every moment of one trace, holds of those of
a trace that says the same but for its records. -/
theorem all_of_unspoken {p : Moment Request.Answer Bool → Bool} (hp : ∀ r f b, p ⟨.emit r, f, b⟩ = true)
    (h : u.unspoken = t.unspoken) (ht : t.all p = true) : u.all p = true := by
  rw [List.all_eq_true] at ht ⊢
  intro m hm
  cases hh : m.handed? with
  | none =>
    have hmem : m ∈ u.unspoken := List.mem_filter.2 ⟨hm, by rw [hh]; rfl⟩
    rw [h] at hmem
    exact ht m (List.mem_filter.1 hmem).1
  | some q =>
    rcases m with ⟨r, y, b⟩
    cases r with
    | emit r => exact hp r y b
    | _ => cases hh

theorem tame_of_unspoken (h : u.unspoken = t.unspoken) (ht : t.tame = true) : u.tame = true :=
  all_of_unspoken (fun _ _ _ => rfl) h ht

end Trace

/-- The second trace says what the first one says, and tells of records besides. They are taken, and no
one requests an abort when they are. -/
structure Resounds (requested : Bool) (t u : Trace) : Prop where
  unspoken : u.unspoken = t
  taken : u.taken = true
  signal : u.signal requested = t.signal requested
  heeds : t.heeds requested = true → u.heeds requested = true

namespace Resounds
variable {requested : Bool} {t u : Trace}

theorem of_handed_nil (h : t.handed = []) : Resounds requested t t :=
  ⟨Trace.unspoken_of_handed_nil h, Trace.taken_of_handed_nil h, rfl, id⟩

theorem append {t' u' : Trace} (h : Resounds requested t u) (h' : Resounds (t.signal requested) t' u') :
    Resounds requested (t ++ t') (u ++ u') := by
  refine ⟨?_, ?_, ?_, ?_⟩
  · rw [Trace.unspoken_append, h.unspoken, h'.unspoken]
  · rw [Trace.taken_append, h.taken, h'.taken]
    rfl
  · rw [Trace.signal_append, Trace.signal_append, h.signal, h'.signal]
  · intro ht
    rw [Trace.heeds_append, Bool.and_eq_true] at ht
    rw [Trace.heeds_append, h.signal, h.heeds ht.1, h'.heeds ht.2]
    rfl

end Resounds

/-- Each end of the first action is one of the second, in which records are handed over and taken
besides. -/
def Echoes {α : Type} (p q : Executor.Action α) : Prop :=
  ∀ ⦃l t o l'⦄, Ends p l t o l' → ∀ requested, ∃ u : Trace, Ends q l u o l' ∧ Resounds requested t u

section Echoes
variable {α β : Type} {p q : Executor.Action α}

theorem echoes_of_handed_nil (h : Upholds (fun _ t _ _ => Trace.handed t = []) p) : Echoes p p := by
  intro l t o l' hp _
  exact ⟨t, hp, .of_handed_nil (h hp)⟩

theorem echoes_pure (a : α) : Echoes (pure a) (pure a) := by
  intro l t o l' h _
  obtain ⟨rfl, _, _⟩ := ends_pure_iff.1 h
  exact ⟨[], h, .of_handed_nil rfl⟩

theorem echoes_settle (r : Except Fault α) : Echoes (Effect.settle r) (Effect.settle r) := by
  intro l t o l' h _
  obtain ⟨rfl, _, _⟩ := Effect.ends_settle_iff.1 h
  exact ⟨[], h, .of_handed_nil rfl⟩

theorem echoes_bind {f g : α → Executor.Action β} (h : Echoes p q) (hf : ∀ a, Echoes (f a) (g a)) :
    Echoes (p >>= f) (q >>= g) := by
  intro l t o l' he requested
  rcases ends_bind_iff.1 he with ⟨t, t', a, l₁, rfl, hp, hk⟩ | ⟨e, rfl, hp⟩
  · obtain ⟨u, hq, hu⟩ := h hp requested
    obtain ⟨u', hg, hu'⟩ := hf a hk (Trace.signal requested t)
    exact ⟨u ++ u', ends_bind_iff.2 (.inl ⟨u, u', a, l₁, rfl, hq, hg⟩), hu.append hu'⟩
  · obtain ⟨u, hq, hu⟩ := h hp requested
    exact ⟨u, ends_bind_iff.2 (.inr ⟨e, rfl, hq⟩), hu⟩

theorem echoes_get_bind {f g : Ledger → Executor.Action β} (hf : ∀ l, Echoes (f l) (g l)) :
    Echoes (get >>= f) (get >>= g) := by
  intro l t o l' h requested
  rw [ends_get_bind_iff] at h
  obtain ⟨u, hg, hu⟩ := hf l h requested
  exact ⟨u, ends_get_bind_iff.2 hg, hu⟩

theorem echoes_modify_bind {k : Ledger → Ledger} {f g : PUnit → Executor.Action β}
    (hf : Echoes (f ⟨⟩) (g ⟨⟩)) : Echoes (modify k >>= f) (modify k >>= g) := by
  intro l t o l' h requested
  rw [ends_modify_bind_iff] at h
  obtain ⟨u, hg, hu⟩ := hf h requested
  exact ⟨u, ends_modify_bind_iff.2 hg, hu⟩

theorem echoes_observe (h : Echoes p q) : Echoes (Effect.observe p) (Effect.observe q) := by
  intro l t o l' he requested
  obtain ⟨r, rfl, hp⟩ := Effect.ends_observe_iff.1 he
  obtain ⟨u, hq, hu⟩ := h hp requested
  exact ⟨u, Effect.ends_observe_iff.2 ⟨r, rfl, hq⟩, hu⟩

end Echoes

namespace Executor
variable {x : Executor} {c : Case} {l l' : Ledger} {t : Trace}

def loud (x : Executor) : Executor := { x with emits := true }

theorem loud_of_emits (h : x.emits = true) : x.loud = x := by
  rw [loud, ← h]

theorem acts_silent : Acts x c (fun _ t _ _ => Trace.handed t = []) (fun _ => True)
    (fun _ => False) where
  refl _ := rfl
  trans {_ _ _ t u _} ht hu := by
    have ht : Trace.handed t = [] := ht
    have hu : Trace.handed u = [] := hu
    rw [Trace.handed_append, ht, hu, List.append_nil]
  offstage ht _ := Trace.handed_of_offstage ht
  call callable args place _ := by
    intro l t o l' h
    obtain ⟨f, m, u, rfl, hu, _⟩ := ends_invoke h
    exact Trace.handed_of_call hu
  hook _ _ hP := hP.elim
  stray _ _ _ := rfl

section Echo
variable (hx : x.emits = false)
include hx

theorem echoes_emit (r : Record) : Echoes (x.emit r) (x.loud.emit r) := by
  intro l t o l' h requested
  obtain ⟨rfl, hh⟩ := ends_emit h
  generalize hf : errorIn o = f at hh
  cases hh with
  | silent _ =>
    cases o with
    | error f => cases hf
    | ok _ =>
      refine ⟨[⟨.emit r, none, requested⟩], ?_, rfl, rfl, rfl, fun _ => ?_⟩
      · exact Effect.ends_perform_proceed_iff.2 ⟨rfl, none, requested, rfl, rfl⟩
      · cases requested <;> rfl
  | loud f m he => exact nomatch hx.symm.trans he

theorem echoes_recordHook (r : HookResult) : Echoes (x.recordHook r) (x.loud.recordHook r) :=
  echoes_modify_bind (echoes_emit hx _)

theorem echoes_recordStep (r : StepResult) : Echoes (x.recordStep r) (x.loud.recordStep r) :=
  echoes_modify_bind (echoes_emit hx _)

theorem echoes_runHook (a : Arena) (scope : Scope) (h : Hook) :
    Echoes (x.runHook c a scope h) (x.loud.runHook c a scope h) := by
  apply echoes_bind (echoes_settle _)
  intro target
  refine echoes_bind ?_ fun r => ?_
  · exact echoes_of_handed_nil (acts_silent.call (c := c) _ _ _ trivial)
  · exact echoes_bind (echoes_recordHook hx _) fun _ => echoes_pure _

theorem echoes_runHookList (a : Arena) (scope : Scope) (halt : Bool) (hs : List Hook) :
    Echoes (x.runHookList c a scope halt hs) (x.loud.runHookList c a scope halt hs) := by
  induction hs with
  | nil => exact echoes_pure _
  | cons h hs ih =>
    rw [runHookList, runHookList]
    apply echoes_bind (echoes_runHook hx a scope h)
    intro status
    split
    · split
      · exact echoes_bind ih fun _ => echoes_pure _
      · exact echoes_pure _
    · exact ih

theorem echoes_runHooks (phase : HookPhase) (a : Arena) (scope : Scope) (halt : Bool) :
    Echoes (x.runHooks phase c a scope halt) (x.loud.runHooks phase c a scope halt) :=
  echoes_bind (echoes_settle _) fun _ => echoes_runHookList hx a scope halt _

variable {d : DispatchTable} (hd : d.Fit)
include hd

theorem echoes_attempt (index : Nat) (s : Step) :
    Echoes (x.attempt c d index s) (x.loud.attempt c d index s) := by
  apply echoes_bind (echoes_runHooks hx _ _ _ _)
  intro ready
  split
  · exact echoes_of_handed_nil ((acts_silent (x := x) (c := c)).dispatch hd fun _ _ _ => trivial)
  · exact echoes_get_bind fun _ => echoes_pure _

omit hd in
theorem echoes_review (index : Nat) (s : Step) (v : Verdict) :
    Echoes (x.review c d index s v) (x.loud.review c d index s v) := by
  apply echoes_bind (echoes_runHooks hx _ _ _ _)
  intro clean
  split
  · exact echoes_get_bind fun _ => echoes_pure _
  · exact echoes_pure _

theorem echoes_runStep (index : Nat) (s : Step) :
    Echoes (x.runStep c d index s) (x.loud.runStep c d index s) := by
  apply echoes_bind (echoes_attempt hx hd index s)
  intro v
  refine echoes_bind (echoes_review hx index s v) fun v' => ?_
  exact echoes_bind (echoes_recordStep hx _) fun _ => echoes_pure _

omit hx hd in
theorem echoes_stopped : Echoes x.stopped x.loud.stopped := by
  refine echoes_of_handed_nil ?_
  intro l t o l' h
  exact Trace.handed_of_offstage (ends_stopped h).2.1

theorem echoes_runSteps (index : Nat) (skip : Bool) (ss : List Step) :
    Echoes (x.runSteps c d index skip ss) (x.loud.runSteps c d index skip ss) := by
  induction ss generalizing index skip with
  | nil => exact echoes_pure _
  | cons s ss ih =>
    rw [runSteps, runSteps]
    refine echoes_bind ?_ fun stop => ?_
    · split
      · exact echoes_pure _
      · exact echoes_stopped
    · split
      · exact echoes_bind (echoes_recordStep hx _) fun _ => ih _ _
      · refine echoes_bind (echoes_emit hx _) fun _ => ?_
        exact echoes_bind (echoes_runStep hx hd index s) fun _ => ih _ _

omit hd in
theorem echoes_skipAll (index : Nat) (ss : List Step) :
    Echoes (x.skipAll c index ss) (x.loud.skipAll c index ss) := by
  induction ss generalizing index with
  | nil => exact echoes_pure _
  | cons s ss ih => exact echoes_bind (echoes_recordStep hx _) fun _ => ih _

omit hd in
theorem echoes_cleanUp (a : Arena) : Echoes (x.cleanUp c a) (x.loud.cleanUp c a) := by
  refine echoes_bind (echoes_emit hx _) fun _ => echoes_get_bind fun _ => ?_
  exact echoes_bind (echoes_runHooks hx _ _ _ _) fun _ => echoes_pure _

theorem echoes_proceedThrough : Echoes (x.proceedThrough c d) (x.loud.proceedThrough c d) := by
  apply echoes_bind (echoes_emit hx _)
  intro _
  exact echoes_bind (echoes_runHooks hx _ _ _ _) fun _ => echoes_runSteps hx hd _ _ _

omit hd in
theorem echoes_recover (r : Except Fault Unit) : Echoes (x.recover c r) (x.loud.recover c r) := by
  cases r with
  | ok _ => exact echoes_pure _
  | error f =>
    rw [recover, recover]
    split
    · refine echoes_observe (echoes_bind ?_ fun _ => ?_)
      · refine echoes_of_handed_nil ?_
        intro l t o l' h
        exact Trace.handed_of_offstage (ends_interrupt h).2.1
      · exact echoes_get_bind fun _ => echoes_skipAll hx _ _
    · exact echoes_pure _

omit hd in
theorem echoes_announce (stage : Stage) : Echoes (x.announce c stage) (x.loud.announce c stage) := by
  refine echoes_get_bind fun _ => echoes_bind (echoes_emit hx _) fun _ => ?_
  exact echoes_bind (echoes_emit hx _) fun _ => echoes_pure _

omit hd in
theorem echoes_conclude : Echoes (x.conclude c) (x.loud.conclude c) := by
  apply echoes_bind echoes_stopped
  intro stop
  refine echoes_bind (echoes_announce hx _) fun r => echoes_bind ?_ fun _ => echoes_pure _
  · refine echoes_of_handed_nil ?_
    intro l t o l' h
    exact Trace.handed_of_offstage (ends_warn h).2.1

theorem echoes_runComposed : Echoes (x.runComposed c d) (x.loud.runComposed c d) := by
  apply echoes_bind (echoes_observe (echoes_proceedThrough hx hd))
  intro r
  apply echoes_bind (echoes_recover hx r)
  intro outcome
  apply echoes_bind (echoes_cleanUp hx _)
  intro _
  exact echoes_bind (echoes_settle _) fun _ => echoes_conclude hx

omit hd in
theorem echoes_setUp : Echoes (x.setUp c) (x.loud.setUp c) := by
  apply echoes_bind (echoes_emit hx _)
  intro _
  refine echoes_bind ?_ fun r => ?_
  · refine echoes_of_handed_nil ?_
    intro l t o l' h
    obtain ⟨_, r, _, hc⟩ := ends_lift_iff.1 h
    exact Trace.handed_of_offstage (composed_compose hc).offstage
  · cases r with
    | error b => exact echoes_pure _
    | ok a =>
      have hr : x.loud.registry = x.registry := rfl
      dsimp only
      rw [hr]
      cases DispatchTable.build x.registry a with
      | error f => exact echoes_pure _
      | ok d => exact echoes_pure _

omit hd in
theorem echoes_abandon (cause : Fault) (salvaged : Option Arena) :
    Echoes (x.abandon c cause salvaged) (x.loud.abandon c cause salvaged) := by
  refine echoes_bind ?_ fun _ => ?_
  · refine echoes_of_handed_nil ?_
    intro l t o l' h
    exact Trace.handed_of_offstage (Effect.ends_log h).2.1
  · refine echoes_modify_bind (echoes_bind (echoes_skipAll hx _ _) fun _ => ?_)
    refine echoes_bind ?_ fun _ => echoes_announce hx _
    cases salvaged with
    | none => exact echoes_pure _
    | some a => exact echoes_cleanUp hx a

omit hd in
theorem echoes_runCase : Echoes (x.runCase c) (x.loud.runCase c) := by
  intro l t o l' h requested
  rcases ends_runCase h with ⟨f, rfl, hs⟩ | ⟨u, v, r, rfl, hs, hk⟩
  · obtain ⟨u, hs', hu⟩ := echoes_setUp hx hs requested
    exact ⟨u, ends_bind_iff.2 (.inr ⟨f, rfl, hs'⟩), hu⟩
  · obtain ⟨_, _, _, _, _, _, hsetup⟩ := ends_setUp hs
    obtain ⟨u', hs', hu⟩ := echoes_setUp hx hs requested
    rcases r with b | d
    · dsimp only at hk
      split at hk
      · rename_i he
        obtain ⟨rfl, rfl, rfl⟩ := hk
        refine ⟨u' ++ [], ends_bind_iff.2 (.inl ⟨u', [], _, _, rfl, hs', ?_⟩),
          hu.append (.of_handed_nil rfl)⟩
        dsimp only
        rw [if_pos he]
        exact ends_throw_iff.2 ⟨rfl, rfl, rfl⟩
      · rename_i he
        obtain ⟨v', hk', hv⟩ := echoes_abandon hx _ _ hk (Trace.signal requested u)
        refine ⟨u' ++ v', ends_bind_iff.2 (.inl ⟨u', v', _, _, rfl, hs', ?_⟩), hu.append hv⟩
        dsimp only
        rw [if_neg he]
        exact hk'
    · obtain ⟨v', hk', hv⟩ :=
        echoes_runComposed hx ((hsetup _ rfl).fit d rfl) hk (Trace.signal requested u)
      exact ⟨u' ++ v', ends_bind_iff.2 (.inl ⟨u', v', _, _, rfl, hs', hk'⟩), hu.append hv⟩

end Echo

/-- The trace of a run in full: with the records that no one took, if there are any. -/
structure Voiced (x : Executor) (t full : Trace) : Prop where
  rest : full.unspoken = t.unspoken
  same : x.emits = true → full = t
  taken : x.emits = false → full.taken = true

theorem voiced_self (hx : x.emits = true) : x.Voiced t t :=
  ⟨rfl, fun _ => rfl, fun h => nomatch hx.symm.trans h⟩

theorem voiced_of_resounds {requested : Bool} {full : Trace} (hx : x.emits = false)
    (h : Resounds requested t full) : x.Voiced t full := by
  refine ⟨?_, ?_, fun _ => h.taken⟩
  · rw [← h.unspoken, Trace.unspoken_unspoken]
  · exact fun he => nomatch hx.symm.trans he

theorem Voiced.taken_of_taken {full : Trace} (h : x.Voiced t full) (ht : t.taken = true) :
    full.taken = true := by
  cases hx : x.emits with
  | true => rwa [h.same hx]
  | false => exact h.taken hx

/-- Every run has a trace in full, in which the signal is as it was. -/
theorem exists_voiced_heeding {scenario : Scenario} {feature : Option Feature} {id : Option String}
    (requested : Bool) {o : Except Fault ScenarioResult} (h : (x.run scenario feature id).Runs t o) :
    ∃ full : Trace, x.Voiced t full ∧ (x.loud.run scenario feature id).Runs full o ∧
      (t.heeds requested = true → full.heeds requested = true) := by
  cases hx : x.emits with
  | true =>
    rw [loud_of_emits hx]
    exact ⟨t, voiced_self hx, h, fun ht => ht⟩
  | false =>
    obtain ⟨l', hc⟩ := runs_run_iff.1 h
    obtain ⟨full, hc', hfull⟩ := echoes_runCase hx hc requested
    exact ⟨full, voiced_of_resounds hx hfull, runs_run_iff.2 ⟨l', hc'⟩, hfull.heeds⟩

/-- Every run has a trace in full. -/
theorem exists_voiced_of_runs {scenario : Scenario} {feature : Option Feature} {id : Option String}
    {o : Except Fault ScenarioResult} (h : (x.run scenario feature id).Runs t o) :
    ∃ full : Trace, x.Voiced t full ∧ (x.loud.run scenario feature id).Runs full o := by
  obtain ⟨full, hvoiced, hfull, _⟩ := exists_voiced_heeding false h
  exact ⟨full, hvoiced, hfull⟩

theorem exists_voiced {scenario : Scenario} {feature : Option Feature} {id : Option String}
    {d : DispatchTable} {o : Except Fault ScenarioResult}
    (h : (x.run scenario feature id).Runs t o)
    (hp : x.Prepared (.named scenario feature id) t d) :
    ∃ full : Trace, x.Voiced t full ∧ (x.loud.run scenario feature id).Runs full o ∧
      x.loud.Prepared (.named scenario feature id) full d := by
  cases hx : x.emits with
  | true =>
    rw [loud_of_emits hx]
    exact ⟨t, voiced_self hx, h, hp⟩
  | false =>
    obtain ⟨l', hc⟩ := runs_run_iff.1 h
    obtain ⟨hd, u, v, rfl, hs, hk⟩ := hp.ends hc
    obtain ⟨u', hs', hu⟩ := echoes_setUp hx hs false
    obtain ⟨v', hk', hv⟩ := echoes_runComposed hx hd hk (Trace.signal false u)
    refine ⟨u' ++ v', voiced_of_resounds hx (hu.append hv), runs_run_iff.2 ⟨l', ?_⟩, u', v', _, rfl, hs'⟩
    exact ends_bind_iff.2 (.inl ⟨u', v', _, _, rfl, hs', hk'⟩)

end Executor
end Rehearsal
