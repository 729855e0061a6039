import Rehearsal.Proofs.Scenario.Course
import Rehearsal.Proofs.Scenario.Grade
import Rehearsal.Proofs.Scenario.Listing
import Rehearsal.Proofs.Scenario.Silence
import Rehearsal.Proofs.Scenario.Unseen

/-! Where steps are called, and where the results of hooks after them are refused. Both are seen in the
stage of their step, from whose index they are told apart; the parts of a run in which neither is seen
are many, and are named here once. -/

namespace Rehearsal
set_option autoImplicit false

namespace Moment

/-- The end of the call of a step: a fault or none. Hooks are told where they are called, steps are
not. -/
def stepCall? : Moment Request.Answer Bool → Option (Option Fault)
  | ⟨.call _ args, f, _⟩ => if args.all Argument.isValue then some f else none
  | _ => none

/-- The fault by which the result of a hook after a step is refused. -/
def refusedReview? : Moment Request.Answer Bool → Option Fault
  | ⟨.emit (.hook r), some f, _⟩ => if r.phase == .afterStep then some f else none
  | _ => none

/-- Callables and the sink may end in any way; what else a run relies on is tame. -/
def undisturbed (m : Moment Request.Answer Bool) : Bool := m.call?.isSome || m.tame

theorem announced?_of_stepCall {m : Moment Request.Answer Bool} (h : m.stepCall?.isSome = true) :
    m.announced? = none := by
  rcases m with ⟨r, x, b⟩
  cases r with
  | call _ _ => rfl
  | _ => cases h

theorem unseen_of_isAside {m : Moment Request.Answer Bool} (h : m.isOffstage = true) :
    m.stepCall? = none ∧ m.refusedReview? = none := by
  rcases m with ⟨r, x, b⟩
  cases r with
  | emit _ => cases h
  | call _ _ => cases h
  | _ => exact ⟨rfl, rfl⟩

end Moment

namespace Trace
variable {α : Type}

/-- What is seen of moments, each with the step index of the stage that was announced last before. -/
def located (g : Moment Request.Answer Bool → Option α) :
    Option StageEvent → Trace → List (Option Int × α)
  | _, [] => []
  | e, m :: t =>
    match m.announced? with
    | some e' => located g (some e') t
    | none => ((g m).map fun a => (e.bind (·.stepIndex), a)).toList ++ located g e t

/-- The calls of steps, each with the index of its step. -/
def stepCalls (t : Trace) : List (Option Int × Option Fault) := t.located Moment.stepCall? none

/-- What was refused of the results of hooks after a step, each with the index of the step. -/
def refusedReviews (t : Trace) : List (Option Int × Fault) := t.located Moment.refusedReview? none

def undisturbed (t : Trace) : Bool := t.all Moment.undisturbed

variable {g : Moment Request.Answer Bool → Option α} {e : Option StageEvent} {t u : Trace}

@[simp] theorem undisturbed_append : undisturbed (t ++ u) = (t.undisturbed && u.undisturbed) :=
  List.all_append

theorem located_append :
    located g e (t ++ u) = t.located g e ++ u.located g (t.stages.getLast?.or e) := by
  induction t generalizing e with
  | nil => rfl
  | cons m t ih =>
    rw [List.cons_append, located, located, stages_cons, List.getLast?_append, Option.or_assoc]
    cases m.announced? with
    | none => simp [ih]
    | some e' =>
      have hlast : (some e').toList.getLast?.or e = some e' := rfl
      rw [hlast]
      exact ih

theorem located_of_stages_nil (h : t.stages = []) :
    t.located g e = (t.filterMap g).map fun a => (e.bind (·.stepIndex), a) := by
  induction t with
  | nil => rfl
  | cons m t ih =>
    rw [stages_cons, List.append_eq_nil_iff, Option.toList_eq_nil_iff] at h
    rw [located, h.1, ih h.2, List.filterMap_cons]
    cases g m <;> rfl

theorem located_eq_nil (h : t.filterMap g = []) : t.located g e = [] := by
  induction t generalizing e with
  | nil => rfl
  | cons m t ih =>
    rw [List.filterMap_eq_nil_iff] at h
    obtain ⟨hm, ht⟩ := List.forall_mem_cons.1 h
    have ht := List.filterMap_eq_nil_iff.2 ht
    rw [located, hm]
    split
    · exact ih ht
    · exact ih ht

theorem exists_located {m : Moment Request.Answer Bool} {a : α} (hm : m ∈ t) (ha : g m = some a)
    (hn : m.announced? = none) (e : Option StageEvent) : ∃ i, (i, a) ∈ t.located g e := by
  induction t generalizing e with
  | nil => cases hm
  | cons n t ih =>
    rw [located]
    rcases List.mem_cons.1 hm with rfl | hm
    · rw [hn, ha]
      exact ⟨_, List.mem_append_left _ (List.mem_singleton_self _)⟩
    · cases n.announced? with
      | some e' => exact ih hm (some e')
      | none =>
        obtain ⟨i, hi⟩ := ih hm e
        exact ⟨i, List.mem_append_right _ hi⟩

theorem undisturbed_of_tame (h : t.tame = true) : t.undisturbed = true := by
  rw [tame, List.all_eq_true] at h
  rw [undisturbed, List.all_eq_true]
  intro m hm
  rw [Moment.undisturbed, h m hm, Bool.or_true]

theorem tame_of_undisturbed (ht : t.undisturbed = true) (h : t.offstage = true) :
    t.tame = true := by
  rw [undisturbed, List.all_eq_true] at ht
  rw [offstage, List.all_eq_true] at h
  rw [tame, List.all_eq_true]
  intro m hm
  have hcall := (Moment.unseen_of_isOffstage (h m hm)).2.1
  have hund := ht m hm
  rwa [Moment.undisturbed, hcall] at hund

theorem undisturbed_of_unspoken (h : u.unspoken = t.unspoken) (ht : t.undisturbed = true) :
    u.undisturbed = true := all_of_unspoken (fun _ _ _ => rfl) h ht

theorem refusedReview_of_taken (h : t.taken = true) : t.filterMap Moment.refusedReview? = [] := by
  rw [List.filterMap_eq_nil_iff]
  rintro ⟨r, x, b⟩ hm
  cases r with
  | emit r =>
    have hx : x = none := by
      have hp : (r, x) ∈ t.handed := List.mem_filterMap.2 ⟨_, hm, rfl⟩
      exact Option.isNone_iff_eq_none.1 (List.all_eq_true.1 h _ hp)
    subst hx
    cases r <;> rfl
  | _ => rfl

end Trace

/-- A status and an error tell of a call: it was made, and it failed in an error if it ended in a fault
that is not pending. -/
def TellsOf (f : Option Fault) (status : Status) (error : Option ErrorInfo) : Prop :=
  status ≠ .skipped ∧ ∀ g, f = some g → g.family ≠ .pending →
    status = .failed ∧ ∃ place stack, error = some (.ofFault g place stack)

namespace Executor
variable {x : Executor} {c : Case} {l l' : Ledger} {t : Trace}

theorem tellsOf_countsAs {place : String} {f : Option Fault} :
    TellsOf f (x.countsAs place f).1 (x.countsAs place f).2 := by
  refine ⟨countsAs_ne_skipped place f, ?_⟩
  rintro g rfl hg
  rw [countsAs]
  cases hf : g.family with
  | pending => exact absurd hf hg
  | ordinary => exact ⟨rfl, place, _, rfl⟩
  | interrupt => exact ⟨rfl, place, _, rfl⟩
  | exit => exact ⟨rfl, place, _, rfl⟩

/-- Where nothing is disturbed a call leaves the run by an exit, if at all. -/
theorem exit_of_ends_invoke {callable : Callable} {args : List Argument} {place : String} {g : Fault}
    (ht : t.undisturbed = true) (h : Ends (x.invoke c callable args place) l t (.error g) l') :
    g.family = .exit := by
  obtain ⟨f, m, u, rfl, hu, _, _, htame⟩ := ends_invoke h
  have hu : Trace.tame u = true := by
    rw [Trace.undisturbed, List.all_cons, Bool.and_eq_true] at ht
    exact Trace.tame_of_undisturbed ht.2 hu
  change Option Fault at f
  have hexit : f.all (·.family != .exit) ≠ true := by
    intro hall
    have hok := htame (Bool.and_eq_true_iff.2 ⟨(Moment.tame_call ..).trans hall, hu⟩)
    cases hok
  obtain ⟨f', m', u', he, hk⟩ := Effect.ends_perform_bind_iff.1 h
  change Option Fault at f'
  cases he
  rcases f with _ | f
  · exact absurd rfl hexit
  · have hf : f.family = .exit := by simpa using hexit
    simp only [hf] at hk
    rw [Except.error.inj (ends_throw_iff.1 hk).2.1]
    exact hf

theorem blind_stepCall : Blind Moment.stepCall? where
  offstage _ h := (Moment.unseen_of_isAside h).1
  record _ _ _ _ := rfl

theorem blind_refusedReview : Blind Moment.refusedReview? where
  offstage _ h := (Moment.unseen_of_isAside h).2
  record r f b h := by cases r <;> first | rfl | cases h

/-- Hooks are told where they are called, so that no step is called by them. -/
theorem acts_stepless : Acts x c (Unseen Moment.stepCall?)
    (fun args => args.all Argument.isValue = false) (fun _ => True) :=
  blind_stepCall.acts (fun _ _ _ _ hC => by simp [Moment.stepCall?, hC]) fun _ _ _ _ => rfl

theorem acts_unrefused : Acts x c (Unseen Moment.refusedReview?) (fun _ => True)
    (· ≠ .afterStep) :=
  blind_refusedReview.acts (fun _ _ _ _ _ => rfl) fun r f b hP => by
    cases f with
    | none => rfl
    | some f => simp [Moment.refusedReview?, hP]

/-- An interrupt leaves the hooks after a step by the refusal of a result of one of them. -/
def LeftByRefusal (_ : Ledger) (t : Trace) (e : Option Fault) (_ : Ledger) : Prop :=
  t.undisturbed = true → ∀ f, e = some f → f.family = .interrupt →
    f ∈ t.filterMap Moment.refusedReview?

theorem hookActs_leftByRefusal :
    HookActs x c LeftByRefusal (fun _ => True) (· = .afterStep) where
  refl _ _ := nofun
  trans h h' ht f he hf := by
    rw [Trace.undisturbed_append, Bool.and_eq_true] at ht
    rw [List.filterMap_append]
    exact List.mem_append_right _ (h' ht.2 f he hf)
  offstage h he ht f hf := by
    rw [he (Trace.tame_of_undisturbed ht h)] at hf
    cases hf
  call callable args place _ := by
    intro l t o l' h ht f he hf
    cases o with
    | ok _ => cases he
    | error g =>
      cases he
      exact nomatch hf.symm.trans (exit_of_ends_invoke ht h)
  hook k f hP := by
    intro l t o l' h _ g he _
    have hx := (ends_recordHook h).2
    rw [he] at hx
    cases hx with
    | loud _ m _ =>
      have hphase : (x.hookResult c k f).phase = .afterStep := hP
      simp [Moment.refusedReview?, hphase]

theorem leftByRefusal_review {d : DispatchTable} {index : Nat} {s : Step} {v : Verdict}
    (hd : d.Fit) : Upholds LeftByRefusal (x.review c d index s v) := by
  have A := hookActs_leftByRefusal (x := x) (c := c)
  refine upholds_bind A.toSequential ?_ fun clean => ?_
  · refine A.runHooks (fun f hl _ _ g hg hf => ?_) rfl hd.rooted rfl fun _ => trivial
    rw [← Option.some.inj hg, Registry.family_of_lookup hl] at hf
    cases hf
  · split
    · exact upholds_bind A.toSequential (upholds_get A.toSequential) fun _ =>
        upholds_pure A.toSequential _
    · exact upholds_pure A.toSequential _

/-- What finding and calling the definition of a step comes to tells of the call, unless it exits. -/
theorem calls_dispatch {d : DispatchTable} {s : Step} {o : Except Fault Verdict}
    (ht : t.undisturbed = true) (h : Ends (x.dispatch c d s) l t o l') :
    ∀ f ∈ t.filterMap Moment.stepCall?, (∃ v, o = .ok v ∧ TellsOf f v.status v.error) ∨
      ∃ g, o = .error g ∧ g.family = .exit := by
  rcases ends_dispatch h with ⟨_, hoff, _⟩ | ⟨_, _, u, v, r, _, _, rfl, hu, hcall, rfl⟩
  · rw [blind_stepCall.aside hoff]
    exact fun f hf => nomatch hf
  · rw [Trace.undisturbed_append, Bool.and_eq_true] at ht
    intro f hf
    obtain ⟨f', m, w, rfl, hw, _, hr, _⟩ := ends_invoke hcall
    have hf' : f = f' := by
      rw [List.filterMap_append, blind_stepCall.aside hu, List.nil_append, List.filterMap_cons,
        blind_stepCall.aside hw, Moment.stepCall?, if_pos (isValue_stepArguments ..)] at hf
      exact List.mem_singleton.1 hf
    cases r with
    | ok r =>
      rw [hr r rfl, hf']
      exact .inl ⟨_, rfl, tellsOf_countsAs⟩
    | error g => exact .inr ⟨g, rfl, exit_of_ends_invoke ht.2 hcall⟩

theorem calls_attempt {d : DispatchTable} {index : Nat} {s : Step} {o : Except Fault Verdict}
    (hd : d.Fit) (ht : t.undisturbed = true) (h : Ends (x.attempt c d index s) l t o l') :
    ∀ f ∈ t.filterMap Moment.stepCall?, (∃ v, o = .ok v ∧ TellsOf f v.status v.error) ∨
      ∃ g, o = .error g ∧ g.family = .exit := by
  have hhooks : Upholds (Unseen Moment.stepCall?)
      (x.runHooks .beforeStep c d.arena (stepScope c index s none) true) :=
    acts_stepless.runHooks rfl hd.rooted trivial fun _ => rfl
  rcases ends_bind_iff.1 h with ⟨u, v, ready, l₁, rfl, hh, hk⟩ | ⟨e, rfl, hh⟩
  · have hu : u.filterMap Moment.stepCall? = [] := hhooks hh
    rw [Trace.undisturbed_append, Bool.and_eq_true] at ht
    rw [List.filterMap_append, hu, List.nil_append]
    split at hk
    · exact calls_dispatch ht.2 hk
    · rw [ends_get_bind_iff] at hk
      obtain ⟨rfl, _⟩ := ends_pure_iff.1 hk
      exact fun f hf => nomatch hf
  · have hnil : t.filterMap Moment.stepCall? = [] := hhooks hh
    rw [hnil]
    exact fun f hf => nomatch hf

/-- The hooks after a step turn no failure of it into anything else. -/
theorem tellsOf_review {d : DispatchTable} {index : Nat} {s : Step} {v v' : Verdict} {f : Option Fault}
    (hv : TellsOf f v.status v.error) (h : Ends (x.review c d index s v) l t (.ok v') l') :
    TellsOf f v'.status v'.error := by
  obtain ⟨u, w, clean, l₁, rfl, _, hk⟩ := ends_bind_ok_iff.1 h
  split at hk
  · rename_i hcase
    rw [ends_get_bind_iff] at hk
    cases (ends_pure_iff.1 hk).2.1
    refine ⟨nofun, fun g hg hfam => ?_⟩
    rw [Bool.and_eq_true, bne_iff_ne] at hcase
    exact absurd (hv.2 g hg hfam).1 hcase.2
  · cases (ends_pure_iff.1 hk).2.1
    exact hv

theorem runActs_taken :
    RunActs x c (fun _ t e _ => e = none → Trace.taken t = true) (fun _ => True) (fun _ => True) := by
  have hhands : ∀ {r : Record} {t : Trace} {e : Option Fault}, x.Hands r t e → e = none →
      t.taken = true := by
    rintro r t e h rfl
    cases h <;> rfl
  refine Acts.toRunActs ?_ (fun r => ?_) fun stage index => ?_
  · exact {
      refl := fun _ _ => rfl
      trans := fun {_ _ _ t u _} ht hu he => by
        rw [Trace.taken_append, ht rfl, hu he]
        rfl
      offstage := fun ht _ _ => Trace.taken_of_handed_nil (Trace.handed_of_offstage ht)
      call := fun callable args place _ l t o l' h _ => by
        obtain ⟨f, m, u, rfl, hu, _⟩ := ends_invoke h
        exact Trace.taken_of_handed_nil (Trace.handed_of_call hu)
      hook := fun _ _ _ _ _ _ _ h => hhands (ends_recordHook h).2
      stray := fun _ _ _ => nofun }
  · exact fun _ _ _ _ h => hhands (ends_recordStep h).2
  · exact fun _ _ _ _ h => hhands (ends_transition h).2

theorem unrefused_attempt {d : DispatchTable} {index : Nat} {s : Step} (hd : d.Fit) :
    Upholds (Unseen Moment.refusedReview?) (x.attempt c d index s) :=
  acts_unrefused.attempt hd nofun (fun _ _ _ => trivial) fun _ _ => trivial

theorem stepless_review {d : DispatchTable} {index : Nat} {s : Step} {v : Verdict} (hd : d.Fit) :
    Upholds (Unseen Moment.stepCall?) (x.review c d index s v) :=
  acts_stepless.review hd trivial fun _ _ => rfl

theorem unrefused_review {d : DispatchTable} {index : Nat} {s : Step} {v v' : Verdict} (hd : d.Fit)
    (h : Ends (x.review c d index s v) l t (.ok v') l') :
    t.filterMap Moment.refusedReview? = [] :=
  Trace.refusedReview_of_taken (runActs_taken.review hd trivial (fun _ _ => trivial) h rfl)

end Executor
end Rehearsal
