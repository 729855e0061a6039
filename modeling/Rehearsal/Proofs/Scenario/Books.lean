import Rehearsal.Proofs.Scenario.Whole

/-! The books of a scenario. As long as records are handed over the ledger is a function of the trace:
it holds the results that were handed over, in their order, and the first error among those that
count. An interrupt leaves its mark in any case. -/

namespace Rehearsal
set_option autoImplicit false

def Record.noted : Record → Option ErrorInfo
  | hook r => r.error
  | step r => if r.status == .failed then r.error else none
  | _ => none

@[simp] theorem Record.noted_hook (r : HookResult) : (hook r).noted = r.error := rfl

@[simp] theorem Record.noted_step (r : StepResult) :
    (step r).noted = if r.status == .failed then r.error else none := rfl

@[simp] theorem Record.noted_stage (e : StageEvent) : (stage e).noted = none := rfl

@[simp] theorem Record.noted_scenario (r : ScenarioResult) : (scenario r).noted = none := rfl

def Trace.noted (t : Trace) : Option ErrorInfo := t.records.findSome? Record.noted

/-- The ledger after the results of a trace were entered. -/
def Ledger.enter (l : Ledger) (t : Trace) : Ledger where
  steps := l.steps ++ t.steps
  hooks := l.hooks ++ t.hooks
  firstError := l.firstError.or t.noted
  interrupted := l.interrupted || t.interrupted

namespace Ledger
variable (l : Ledger) (t u : Trace) (b : Bool)

@[simp] theorem steps_enter : (l.enter t).steps = l.steps ++ t.steps := rfl

@[simp] theorem hooks_enter : (l.enter t).hooks = l.hooks ++ t.hooks := rfl

@[simp] theorem firstError_enter : (l.enter t).firstError = l.firstError.or t.noted := rfl

@[simp] theorem steps_strike : (l.strike b).steps = l.steps := rfl

@[simp] theorem hooks_strike : (l.strike b).hooks = l.hooks := rfl

@[simp] theorem firstError_strike : (l.strike b).firstError = l.firstError := rfl

theorem enter_append : l.enter (t ++ u) = (l.enter t).enter u := by
  simp [enter, Trace.noted, List.findSome?_append, Bool.or_assoc, Option.or_assoc]

variable {t}

theorem enter_of_handed_nil (h : t.handed = []) : l.enter t = l.strike t.interrupted := by
  simp [enter, strike, Trace.steps, Trace.hooks, Trace.noted, Trace.records, h]

theorem enter_of_offstage (h : t.offstage = true) : l.enter t = l := by
  rw [l.enter_of_handed_nil (Trace.handed_of_offstage h), Trace.interrupted_of_offstage h,
    strike_false]

theorem enter_strike : (l.strike b).enter t = (l.enter t).strike b := by
  simp [enter, strike, Bool.or_assoc, Bool.or_comm b]

theorem enter_emit (r : Record) (f : Option Fault) (m : Bool) :
    l.enter [⟨.emit r, f, m⟩] =
      ⟨l.steps ++ r.step?.toList, l.hooks ++ r.hook?.toList, l.firstError.or r.noted,
        l.interrupted⟩ := by
  cases r <;> simp [enter, Trace.steps, Trace.hooks, Trace.noted, Trace.records, Trace.handed,
    Trace.interrupted, Moment.handed?, Moment.isInterrupt, Record.step?, Record.hook?]

end Ledger

namespace Executor
variable {x : Executor} {c : Case} {l l' : Ledger} {t : Trace} {p : Prop}

/-- What is entered is what is handed over. -/
def Entered (x : Executor) (l : Ledger) (t : Trace) (_ : Option Fault) (l' : Ledger) : Prop :=
  x.emits = true → l' = l.enter t

theorem entered_of_hands {r : Record} {l : Ledger} {t : Trace} {e : Option Fault}
    (h : x.Hands r t e) :
    x.Entered l t e ⟨l.steps ++ r.step?.toList, l.hooks ++ r.hook?.toList,
      l.firstError.or r.noted, l.interrupted⟩ := by
  intro he
  cases h with
  | silent hn => exact nomatch hn.symm.trans he
  | loud e m _ => exact (l.enter_emit r e m).symm

theorem sequential_entered : Sequential x.Entered where
  refl l _ := (l.enter_of_offstage rfl).symm
  trans h h' he := by rw [h' he, h he, Ledger.enter_append]

theorem entered_stage (stage : Stage) (index : Option Int) :
    Upholds x.Entered (x.transition c stage index) := by
  intro l t o l' h
  obtain ⟨rfl, hx⟩ := ends_transition h
  simpa [Record.step?, Record.hook?] using entered_of_hands hx

theorem acts_entered : Acts x c x.Entered (fun _ => True) (fun _ => True) where
  toSequential := sequential_entered
  offstage ht _ _ := (Ledger.enter_of_offstage _ ht).symm
  call callable args place _ := by
    intro l t o l' h _
    obtain ⟨f, m, u, rfl, hu, rfl, _⟩ := ends_invoke h
    exact (Ledger.enter_of_handed_nil _ (Trace.handed_of_call hu)).symm
  hook k f _ := by
    intro l t o l' h
    obtain ⟨rfl, hx⟩ := ends_recordHook h
    simpa [Record.step?, Record.hook?, Ledger.addHook, Ledger.noteError] using entered_of_hands hx
  stray _ l _ _ := (l.enter_of_offstage rfl).symm

theorem runActs_entered : RunActs x c x.Entered (fun _ => True) (fun _ => True) := by
  refine acts_entered.toRunActs (fun r => ?_) entered_stage
  intro l t o l' h
  obtain ⟨rfl, hx⟩ := ends_recordStep h
  simpa [Record.step?, Record.hook?, Ledger.addStep, Ledger.noteError] using entered_of_hands hx

theorem entered_cleanUp {a : Arena} (ha : a.nodes ≠ []) : Upholds x.Entered (x.cleanUp c a) :=
  acts_entered.cleanUp ha trivial (entered_stage _ _) fun _ _ => trivial

theorem steps_eq_nil_of_entered (h : l' = l.enter t) (hs : l'.steps = l.steps) : t.steps = [] := by
  rw [h, Ledger.steps_enter] at hs
  exact List.append_right_eq_self.1 hs

/-- An interrupt is noted as a call ends in it, and no one resets the signal. -/
def Noticed (l : Ledger) (t : Trace) (_ : Option Fault) (l' : Ledger) : Prop :=
  l'.interrupted = (l.interrupted || t.interrupted) ∧ t.resets = false

theorem noticed_of_hands {r : Record} {l l' : Ledger} {t : Trace} {e : Option Fault}
    (h : x.Hands r t e) (hl : l'.interrupted = l.interrupted) : Noticed l t e l' := by
  cases h with
  | silent _ => exact ⟨by simp [hl, Trace.interrupted], rfl⟩
  | loud e m _ => exact ⟨by simp [hl, Trace.interrupted, Moment.isInterrupt], rfl⟩

theorem noticed_stage (stage : Stage) (index : Option Int) :
    Upholds Noticed (x.transition c stage index) := by
  intro l t o l' h
  obtain ⟨rfl, hx⟩ := ends_transition h
  exact noticed_of_hands hx rfl

theorem acts_noticed : Acts x c Noticed (fun _ => True) (fun _ => True) where
  refl l := ⟨by simp [Trace.interrupted], rfl⟩
  trans h h' := ⟨by simp [h'.1, h.1, Bool.or_assoc], by simp [h.2, h'.2]⟩
  offstage ht _ := ⟨by simp [Trace.interrupted_of_offstage ht], Trace.resets_of_offstage ht⟩
  call callable args place _ := by
    intro l t o l' h
    obtain ⟨f, m, u, rfl, hu, rfl, _⟩ := ends_invoke h
    have hr : Trace.resets u = false := Trace.resets_of_offstage hu
    exact ⟨rfl, hr⟩
  hook k f _ := by
    intro l t o l' h
    obtain ⟨rfl, hx⟩ := ends_recordHook h
    exact noticed_of_hands hx rfl
  stray _ l _ := ⟨by simp [Trace.interrupted], rfl⟩

theorem runActs_noticed : RunActs x c Noticed (fun _ => True) (fun _ => True) := by
  refine acts_noticed.toRunActs (fun r => ?_) noticed_stage
  intro l t o l' h
  obtain ⟨rfl, hx⟩ := ends_recordStep h
  exact noticed_of_hands hx rfl

theorem noticed_cleanUp {a : Arena} (ha : a.nodes ≠ []) : Upholds Noticed (x.cleanUp c a) :=
  acts_noticed.cleanUp ha trivial (noticed_stage _ _) fun _ _ => trivial

theorem Noticed.stopping {l l' : Ledger} {t : Trace} {e : Option Fault} {requested : Bool}
    (h : Noticed l t e l') (ht : t.heeds requested = true)
    (hs : x.Stopping l requested = true) : x.Stopping l' (t.signal requested) = true := by
  rw [Stopping, Bool.or_eq_true, Bool.and_eq_true] at hs ⊢
  rcases hs with hl | ⟨hw, rfl⟩
  · exact .inl (by rw [h.1, hl, Bool.true_or])
  · exact .inr ⟨hw, Trace.signal_of_heeds ht h.2⟩

/-- A trace up to where an error cut it short: handing a record over is what failed, for the first
time. -/
def CutBy (x : Executor) (t : Trace) : Option Fault → Prop
  | none => t.taken = true
  | some f =>
    x.emits = true ∧ ∃ u r m, t = u ++ [⟨.emit r, some f, m⟩] ∧ Trace.taken u = true

theorem CutBy.append {e : Option Fault} {t u : Trace} (ht : t.taken = true) (hu : x.CutBy u e) :
    x.CutBy (t ++ u) e := by
  cases e with
  | none =>
    have hu : u.taken = true := hu
    rw [CutBy, Trace.taken_append, ht, hu]
    rfl
  | some f =>
    obtain ⟨he, v, r, m, rfl, hv⟩ := hu
    exact ⟨he, t ++ v, r, m, (List.append_assoc ..).symm, by rw [Trace.taken_append, ht, hv]; rfl⟩

/-- Nothing but the failure to hand a record over cuts a run short, under an assumption. -/
def OnlyCutBySink (x : Executor) (p : Prop) (_ : Ledger) (t : Trace) (e : Option Fault)
    (_ : Ledger) : Prop :=
  p → t.tame = true → x.CutBy t e

theorem cutBy_of_hands {r : Record} {t : Trace} {e : Option Fault} (h : x.Hands r t e) :
    x.CutBy t e := by
  cases h with
  | silent _ => rfl
  | loud e m he =>
    cases e with
    | none => rfl
    | some f => exact ⟨he, [], r, m, rfl, rfl⟩

theorem onlyCutBySink_stage (stage : Stage) (index : Option Int) :
    Upholds (x.OnlyCutBySink p) (x.transition c stage index) :=
  fun _ _ _ _ h _ _ => cutBy_of_hands (ends_transition h).2

theorem sequential_onlyCutBySink : Sequential (x.OnlyCutBySink p) where
  refl _ _ _ := rfl
  trans {_ _ _ t u e} h h' hp ht := by
    rw [Trace.tame_append, Bool.and_eq_true] at ht
    have h₁ : Trace.taken t = true := h hp ht.1
    exact (h' hp ht.2).append h₁

theorem onlyCutBySink_of_offstage {e : Option Fault} (ht : t.offstage = true)
    (he : t.tame = true → e = none) : x.OnlyCutBySink p l t e l := by
  intro _ htame
  rw [he htame]
  exact Trace.taken_of_handed_nil (Trace.handed_of_offstage ht)

theorem hookActs_onlyCutBySink :
    HookActs x c (x.OnlyCutBySink p) (fun _ => True) (fun _ => True) where
  toSequential := sequential_onlyCutBySink
  offstage := onlyCutBySink_of_offstage
  call callable args place _ := by
    intro l t o l' h _ htame
    obtain ⟨f, m, u, rfl, hu, _, _, ho⟩ := ends_invoke h
    rw [ho htame]
    exact Trace.taken_of_handed_nil (Trace.handed_of_call hu)
  hook k f _ := by
    intro l t o l' h _ _
    exact cutBy_of_hands (ends_recordHook h).2

theorem acts_onlyCutBySink :
    Acts x c (x.OnlyCutBySink (x.Orderly c)) (fun _ => True) (fun _ => True) where
  toHookActs := hookActs_onlyCutBySink
  stray hn _ _ ho := absurd ho hn

theorem runActs_onlyCutBySink :
    RunActs x c (x.OnlyCutBySink (x.Orderly c)) (fun _ => True) (fun _ => True) := by
  refine acts_onlyCutBySink.toRunActs (fun r => ?_) onlyCutBySink_stage
  intro l t o l' h _ _
  exact cutBy_of_hands (ends_recordStep h).2

theorem onlyCutBySink_cleanUp {a : Arena} (ha : a.nodes ≠ []) :
    Upholds (x.OnlyCutBySink (x.Orderly c)) (x.cleanUp c a) :=
  acts_onlyCutBySink.cleanUp ha trivial (onlyCutBySink_stage _ _) fun _ _ => trivial

/-- The cleanup asks no more than that its hooks can be chosen. -/
theorem cutBy_cleanUp {a : Arena} {hooks : List Hook} {o : Except Fault Unit} (ha : a.nodes ≠ [])
    (hl : x.registry.lookup .afterScenario (some c.tags) = .ok hooks) (ht : t.tame = true)
    (h : Ends (x.cleanUp c a) l t o l') : x.CutBy t (errorIn o) := by
  have hup : Upholds (x.OnlyCutBySink True) (x.cleanUp c a) :=
    hookActs_onlyCutBySink.cleanUp (fun f hf => nomatch hl.symm.trans hf) ha trivial
      (onlyCutBySink_stage _ _) fun _ _ => trivial
  exact hup h trivial ht

theorem CutBy.eq_none {t : Trace} {e : Option Fault} (h : x.CutBy t e) (ht : t.taken = true) :
    e = none := by
  cases e with
  | none => rfl
  | some f =>
    obtain ⟨_, u, r, m, rfl, _⟩ := h
    simp [Trace.taken, Trace.handed, Moment.handed?] at ht

theorem CutBy.ok {α : Type} {o : Except Fault α} (h : x.CutBy t (errorIn o)) (ht : t.taken = true) :
    ∃ a, o = .ok a := by
  cases o with
  | ok a => exact ⟨a, rfl⟩
  | error f => exact nomatch h.eq_none ht

/-- Where every record is taken, what only the sink can cut short is followed by what comes next. -/
theorem ends_bind_of_taken {α β : Type} {m : Action α} {f : α → Action β} {o : Except Fault β}
    (hm : Upholds (x.OnlyCutBySink p) m) (hp : p) (ht : t.tame = true)
    (hk : t.taken = true) (h : Ends (m >>= f) l t o l') :
    ∃ (u v : Trace) (a : α) (l₁ : Ledger), t = u ++ v ∧ Ends m l u (.ok a) l₁ ∧
      Ends (f a) l₁ v o l' ∧ v.tame = true ∧ v.taken = true := by
  rcases ends_bind_iff.1 h with ⟨u, v, a, l₁, rfl, hu, hv⟩ | ⟨e, rfl, he⟩
  · rw [Trace.tame_append, Bool.and_eq_true] at ht
    rw [Trace.taken_append, Bool.and_eq_true] at hk
    exact ⟨u, v, a, l₁, rfl, hu, hv, ht.2, hk.2⟩
  · obtain ⟨a, ha⟩ := (hm he hp ht).ok hk
    cases ha

end Executor
end Rehearsal
