import Rehearsal.Proofs.Scenario.Parts

/-! What is not seen in a run. Most of what runs do shows in the trace as records only; what is looked
for in calls and in results of hooks is not to be found in the rest. -/

namespace Rehearsal
set_option autoImplicit false

/-- A call of the kind that is looked for. -/
def Moment.callIf? (p : Call → Bool) (m : Moment Request.Answer Bool) : Option Call := m.call?.filter p

namespace Executor
variable {x : Executor} {c : Case} {l l' : Ledger} {t : Trace}

def Unseen {α : Type} (g : Moment Request.Answer Bool → Option α) (_ : Ledger) (t : Trace)
    (_ : Option Fault) (_ : Ledger) : Prop :=
  t.filterMap g = []

/-- The first argument of a step is its context. -/
theorem stepArguments_eq (i : Instance) (captures : List Value) (argument : Value) :
    stepArguments i captures argument = .value i.value :: (captures.map .value ++
      if argument.isNull then [] else [.value argument]) := rfl

/-- What is looked for is seen in calls and in results of hooks, and in nothing else. -/
structure Blind {α : Type} (g : Moment Request.Answer Bool → Option α) : Prop where
  offstage : ∀ m, m.isOffstage = true → g m = none
  record : ∀ (r : Record) (f : Option Fault) b, r.ofScenario = true → g ⟨.emit r, f, b⟩ = none

namespace Blind
variable {α : Type} {g : Moment Request.Answer Bool → Option α} (B : Blind g)
include B

theorem aside (h : t.offstage = true) : t.filterMap g = [] :=
  List.filterMap_eq_nil_iff.2 fun m hm => B.offstage m (List.all_eq_true.1 h m hm)

theorem hands {r : Record} {e : Option Fault} (hr : r.ofScenario = true) (h : x.Hands r t e) :
    t.filterMap g = [] := by
  cases h with
  | silent _ => rfl
  | loud e m _ =>
    rw [List.filterMap_eq_nil_iff]
    rintro _ hm
    rw [List.mem_singleton.1 hm]
    exact B.record r e m hr

theorem silent : Silent x fun t => t.filterMap g = [] where
  append ht hu := by rw [List.filterMap_append, ht, hu, List.append_nil]
  aside := B.aside
  hands := B.hands

theorem acts {C : List Argument → Prop} {P : HookPhase → Prop}
    (hcall : ∀ k args (f : Option Fault) b, C args → g ⟨.call k args, f, b⟩ = none)
    (hhook : ∀ (r : HookResult) (f : Option Fault) b, P r.phase → g ⟨.emit (.hook r), f, b⟩ = none) :
    Acts x c (Unseen g) C P where
  toSequential := (B.silent (x := x)).sequential
  offstage ht _ := B.aside ht
  call callable args place hC := by
    intro l t o l' h
    obtain ⟨f, m, u, rfl, hu, _⟩ := ends_invoke h
    rw [Unseen, List.filterMap_cons, hcall callable args f m hC, B.aside hu]
  hook k f hP := by
    intro l t o l' h
    have hh := (ends_recordHook h).2
    generalize errorIn o = e at hh ⊢
    cases hh with
    | silent _ => rfl
    | loud e m _ =>
      rw [Unseen, List.filterMap_eq_nil_iff]
      rintro _ hm
      rw [List.mem_singleton.1 hm]
      exact hhook (x.hookResult c k f) e m hP
  stray _ _ _ := rfl

/-- Steps and hooks of a scenario are called on a context, and the hooks are bound to instances. What
is seen neither in such calls nor in results of such hooks is not seen in a run at all. -/
theorem run
    (hcall : ∀ k v args (f : Option Fault) b, g ⟨.call k (.value v :: args), f, b⟩ = none)
    (hhook : ∀ (r : HookResult) (f : Option Fault) b, r.phase.instanceBound = true →
      g ⟨.emit (.hook r), f, b⟩ = none)
    {scenario : Scenario} {feature : Option Feature} {id : Option String}
    {o : Except Fault ScenarioResult} (h : (x.run scenario feature id).Runs t o) :
    t.filterMap g = [] := by
  have A : Acts x (.named scenario feature id) (Unseen g) (fun args => ∃ v rest, args = .value v :: rest)
      fun p => p.instanceBound = true := by
    refine B.acts ?_ hhook
    rintro k _ f b ⟨v, rest, rfl⟩
    exact hcall k v rest f b
  have T : TraceActs x (.named scenario feature id) (fun t => t.filterMap g = [])
      (fun args => ∃ v rest, args = .value v :: rest) fun p => p.instanceBound = true := by
    refine ⟨⟨A, fun _ => B.silent.recordStep, B.silent.transition, fun _ => B.silent.transition, ?_,
      fun v _ => ⟨v, _, rfl⟩, fun v => ⟨v, _, rfl⟩, rfl, rfl, rfl⟩, B.silent, fun v _ => ⟨v, _, rfl⟩,
      rfl⟩
    exact fun i captures argument => ⟨i.value, _, stepArguments_eq i captures argument⟩
  obtain ⟨l', hc⟩ := runs_run_iff.1 h
  exact T.runCase hc

end Blind

theorem blind_callIf (p : Call → Bool) : Blind (Moment.callIf? p) where
  offstage m hm := by
    rw [Moment.callIf?, (Moment.unseen_of_isOffstage hm).2.1]
    rfl
  record _ _ _ _ := rfl

theorem acts_callIf (p : Call → Bool) :
    Acts x c (Unseen (Moment.callIf? p)) (fun args => ∀ k, p ⟨k, args⟩ = false) fun _ => True :=
  (blind_callIf p).acts (fun _ _ _ _ hC => Option.filter_some_neg (by simp [hC])) fun _ _ _ _ => rfl

end Executor
end Rehearsal
