import Rehearsal.Proofs.Scenario.Cleanup
import Rehearsal.Proofs.Scenario.Grade
import Rehearsal.Proofs.Scenario.Listing
import Rehearsal.Proofs.Scenario.Unseen

/-! What those who run many scenarios need to know of each: what leaves its run was raised by the sink,
no run takes the request of an abort back, and how severe the result is compared with its hooks and
steps. Nobody asks here that the scenario has the signal for itself. -/

namespace Rehearsal
set_option autoImplicit false

namespace Moment

def isAbort : Moment Request.Answer Bool → Bool
  | ⟨.abort _, _, _⟩ => true
  | _ => false

def reset? (m : Moment Request.Answer Bool) : Option Unit := if m.isReset then some () else none

end Moment

namespace Trace
variable {t u : Trace}

def aborts (t : Trace) : Bool := t.any Moment.isAbort

/-- Whoever is interrupted in a call requests an abort at once. -/
def insists : Trace → Bool
  | [] => true
  | m :: t => (!m.isInterrupt || t.head?.any Moment.isAbort) && insists t

/-- No abort is requested at any moment. -/
def calm (t : Trace) : Bool := t.all fun m => !m.mark

theorem insists_append (ht : t.insists = true) (hu : u.insists = true) : insists (t ++ u) = true := by
  induction t with
  | nil => exact hu
  | cons m t ih =>
    rw [insists, Bool.and_eq_true] at ht
    rw [List.cons_append, insists, ih ht.2, Bool.and_true]
    cases t with
    | nil =>
      have hm : m.isInterrupt = false := by simpa using ht.1
      rw [hm]
      rfl
    | cons n t => exact ht.1

theorem insists_of_append (h : insists (t ++ u) = true) : u.insists = true := by
  induction t with
  | nil => exact h
  | cons m t ih =>
    rw [List.cons_append, insists, Bool.and_eq_true] at h
    exact ih h.2

theorem insists_of_interrupted (h : t.interrupted = false) : t.insists = true := by
  induction t with
  | nil => rfl
  | cons m t ih =>
    rw [interrupted_cons, Bool.or_eq_false_iff] at h
    rw [insists, h.1, ih h.2]
    rfl

theorem resets_eq_false_iff : t.resets = false ↔ t.filterMap Moment.reset? = [] := by
  rw [resets, List.any_eq_false, List.filterMap_eq_nil_iff]
  refine forall₂_congr fun m _ => ?_
  cases hm : m.isReset <;> simp [Moment.reset?, hm]

end Trace

namespace Executor
variable {x : Executor} {c : Case} {l l' : Ledger} {t : Trace} {scenario : Scenario}
  {feature : Option Feature} {id : Option String}

/-- Who abandons a scenario asks no more than its cleanup does. -/
theorem onlyCutBySink_abandon_of_cleanUp {p : Prop} {cause : Fault} {salvaged : Option Arena}
    (hclean : ∀ a, salvaged = some a → Upholds (x.OnlyCutBySink p) (x.cleanUp c a)) :
    Upholds (x.OnlyCutBySink p) (x.abandon c cause salvaged) := by
  refine upholds_abandon sequential_onlyCutBySink (fun level message fields => ?_)
    (upholds_skipAll sequential_onlyCutBySink fun r _ => ?_) ?_ closingActs_onlyCutBySink.announce
  · intro l t o l' h
    obtain ⟨rfl, hoff, hok⟩ := Effect.ends_log h
    exact onlyCutBySink_of_offstage (l := l') hoff fun ht => by rw [hok ht, errorIn_ok]
  · exact fun _ _ _ _ h _ _ => cutBy_of_hands (ends_recordStep h).2
  · cases salvaged with
    | none => exact upholds_pure sequential_onlyCutBySink _
    | some a => exact hclean a rfl

theorem onlyCutBySink_abandon {cause : Fault} {salvaged : Option Arena}
    (ha : ∀ a, salvaged = some a → a.nodes ≠ []) :
    Upholds (x.OnlyCutBySink (x.Orderly c)) (x.abandon c cause salvaged) :=
  onlyCutBySink_abandon_of_cleanUp fun a he => onlyCutBySink_cleanUp (ha a he)

/-- What leaves a run was raised by the sink. -/
theorem raised_run {f : Fault} (h : (x.run scenario feature id).Runs t (.error f))
    (ho : x.Orderly (.named scenario feature id)) (ht : t.tame = true) :
    ∃ r, (r, some f) ∈ t.handed := by
  obtain ⟨l', hc⟩ := runs_run_iff.1 h
  have hbehind : ∀ {u v : Trace}, (∃ r, (r, some f) ∈ v.handed) → ∃ r, (r, some f) ∈ (u ++ v).handed := by
    rintro u v ⟨r, hr⟩
    exact ⟨r, by rw [Trace.handed_append]; exact List.mem_append_right _ hr⟩
  cases caseRun_of_ends hc with
  | refused t hs =>
    obtain ⟨_, u, v, rfl, _, hu, _⟩ := ends_setUp hs
    obtain ⟨r, hr⟩ := (cutBy_of_hands hu).mem_handed
    exact ⟨r, by rw [Trace.handed_append]; exact List.mem_append_left _ hr⟩
  | escaped t hs he => exact nomatch he.symm.trans (contained_of_setUp hs ht)
  | abandoned u v b hs ha hk =>
    rw [Trace.tame_append, Bool.and_eq_true] at ht
    exact hbehind (onlyCutBySink_abandon ha hk ho ht.2).mem_handed
  | composed u v d hs hd hk =>
    rw [Trace.tame_append, Bool.and_eq_true] at ht
    exact hbehind (raised_runComposed hd ho ht.2 hk)

/-- The result of a scenario that is abandoned tells what was handed over since, and why. -/
theorem entered_abandon {cause : Fault} {salvaged : Option Arena} {r : ScenarioResult}
    (ha : ∀ a, salvaged = some a → a.nodes ≠ []) (hx : x.emits = true)
    (h : Ends (x.abandon c cause salvaged) l t (.ok r) l') :
    r = c.result ((l.noteError (some (x.setUpError c cause))).enter t) .aborted := by
  obtain ⟨u, v, w, z, l₁, l₂, rfl, hoff, hskip, hclean, hannounce⟩ := ends_abandon h
  have h₁ : l₁ = _ := runActs_entered.skipAll hskip hx
  have h₂ : l₂ = _ :=
    acts_entered.cleanUpSalvaged ha trivial (entered_stage _ _) (fun _ _ => trivial) hclean hx
  have h₃ : l' = l₂.enter z := closingActs_entered.announce hannounce hx
  obtain ⟨rfl, rfl, _⟩ := ends_announce hannounce
  rw [Ledger.enter_append, Ledger.enter_of_offstage _ hoff, Ledger.enter_append, Ledger.enter_append,
    ← h₁, ← h₂, ← h₃]

/-- A result lists the steps and the hooks whose results were handed over. -/
theorem listed_of_run {r : ScenarioResult} (h : (x.run scenario feature id).Runs t (.ok r))
    (hx : x.emits = true) : r.steps = t.steps ∧ r.hooks = t.hooks := by
  obtain ⟨l', hc⟩ := runs_run_iff.1 h
  cases caseRun_of_ends hc with
  | abandoned u v b hs ha hk =>
    obtain ⟨_, _, hhooks, hsteps⟩ := quiet_setUp hs
    rw [Trace.steps_append, Trace.hooks_append, hsteps, hhooks, entered_abandon ha hx hk]
    exact ⟨rfl, rfl⟩
  | composed u v d hs hd hk =>
    obtain ⟨_, _, hhooks, hsteps⟩ := quiet_setUp hs
    obtain ⟨hit, stage, rfl⟩ := entered_runComposed hd hx hk
    rw [Trace.steps_append, Trace.hooks_append, hsteps, hhooks]
    exact ⟨rfl, rfl⟩

theorem steps_of_run {r : ScenarioResult} (h : (x.run scenario feature id).Runs t (.ok r))
    (hx : x.emits = true) : r.steps = t.steps :=
  (listed_of_run h hx).1

theorem blind_reset : Blind Moment.reset? where
  offstage m hm := by rw [Moment.reset?, (Moment.unseen_of_isOffstage hm).2.2.2]; rfl
  record _ _ _ _ := rfl

/-- A cause that was noted stays. -/
def KeepsCause (l : Ledger) (_ : Trace) (_ : Option Fault) (l' : Ledger) : Prop :=
  ∀ e, l.firstError = some e → l'.firstError = some e

theorem keepsCause_noteError {e : ErrorInfo} (e' : Option ErrorInfo) (h : l.firstError = some e) :
    (l.noteError e').firstError = some e := by
  rw [Ledger.noteError, h, Option.some_or]

theorem acts_keepsCause : Acts x c KeepsCause (fun _ => True) (fun _ => True) where
  refl _ _ := id
  trans h h' e hl := h' e (h e hl)
  offstage _ _ _ := id
  call callable args place _ := by
    intro l t o l' h e hl
    obtain ⟨f, m, u, rfl, _, rfl, _⟩ := ends_invoke h
    exact hl
  hook k f _ := by
    intro l t o l' h e hl
    obtain ⟨rfl, _⟩ := ends_recordHook h
    exact keepsCause_noteError _ hl
  stray _ _ _ _ := id

theorem keepsCause_stage (stage : Stage) (index : Option Int) :
    Upholds KeepsCause (x.transition c stage index) := by
  intro l t o l' h e hl
  obtain ⟨rfl, _⟩ := ends_transition h
  exact hl

theorem runActs_keepsCause : RunActs x c KeepsCause (fun _ => True) (fun _ => True) := by
  refine acts_keepsCause.toRunActs (fun r => ?_) keepsCause_stage
  intro l t o l' h e hl
  obtain ⟨rfl, _⟩ := ends_recordStep h
  exact keepsCause_noteError _ hl

/-- A scenario that is abandoned has failed, and what was to blame for it is its error, whatever the
hooks after it do. -/
theorem failed_abandon {cause : Fault} {salvaged : Option Arena} {r : ScenarioResult}
    (ha : ∀ a, salvaged = some a → a.nodes ≠ [])
    (h : Ends (x.abandon c cause salvaged) Ledger.empty t (.ok r) l') :
    r.stage = .aborted ∧ r.status = .failed ∧ r.error = some (x.setUpError c cause) := by
  obtain ⟨_, _, _, _, l₁, l₂, rfl, _, hskip, hclean, hannounce⟩ := ends_abandon h
  have h₁ := runActs_keepsCause.skipAll hskip _ rfl
  have h₂ := acts_keepsCause.cleanUpSalvaged ha trivial (keepsCause_stage _ _) (fun _ _ => trivial)
    hclean _ h₁
  obtain ⟨_, rfl, _⟩ := ends_announce hannounce
  rw [Case.result, h₂]
  exact ⟨rfl, rfl, rfl⟩

/-- A scenario whose contexts were not set up has failed. -/
theorem failed_of_unprepared {r : ScenarioResult} (h : (x.run scenario feature id).Runs t (.ok r))
    (hp : ∀ d, ¬ x.Prepared (.named scenario feature id) t d) : r.status = .failed := by
  obtain ⟨l', hc⟩ := runs_run_iff.1 h
  cases caseRun_of_ends hc with
  | abandoned u v b hs ha hk => exact (failed_abandon ha hk).2.1
  | composed u v d hs hd hk => exact absurd ⟨u, v, _, rfl, hs⟩ (hp d)

theorem abort_of_interrupt {place : String} {o : Except Fault Unit} (hw : x.watches = true)
    (h : Ends (x.interrupt c place) l t o l') :
    ∃ b u, t = ⟨.abort (some "interrupted"), (), b⟩ :: u := by
  rw [interrupt, ends_modify_bind_iff, if_pos hw] at h
  obtain ⟨_, b, u, rfl, _⟩ := Effect.ends_perform_bind_iff.1 h
  exact ⟨b, u, rfl⟩

theorem insists_invoke {callable : Callable} {args : List Argument} {place : String}
    {o : Except Fault (Status × Option ErrorInfo)} (hw : x.watches = true)
    (h : Ends (x.invoke c callable args place) l t o l') : t.insists = true := by
  obtain ⟨f, b, u, rfl, hu, _⟩ := ends_invoke h
  have hquiet : Trace.insists u = true := Trace.insists_of_interrupted (Trace.interrupted_of_offstage hu)
  change Option Fault at f
  rw [Trace.insists, hquiet, Bool.and_true, Moment.isInterrupt_call]
  cases hi : f.any (·.family == .interrupt) with
  | false => rfl
  | true =>
    obtain ⟨g, hg, hfam⟩ := (Option.any_eq_true ..).1 hi
    obtain ⟨f', b', u', he, hk⟩ := Effect.ends_perform_bind_iff.1 h
    change Option Fault at f'
    cases he
    subst hg
    simp only [eq_of_beq hfam] at hk
    rcases ends_bind_iff.1 hk with ⟨v, w, _, l₁, rfl, hint, _⟩ | ⟨e, rfl, hint⟩
    · obtain ⟨_, _, rfl⟩ := abort_of_interrupt hw hint
      rfl
    · obtain ⟨_, _, rfl⟩ := abort_of_interrupt hw hint
      rfl

theorem Hands.insists {r : Record} {e : Option Fault} (h : x.Hands r t e) : t.insists = true := by
  cases h <;> rfl

theorem insists_run {o : Except Fault ScenarioResult} (hw : x.watches = true)
    (h : (x.run scenario feature id).Runs t o) : t.insists = true := by
  have S : Silent x fun t => t.insists = true := {
    append := Trace.insists_append
    aside := fun ht => Trace.insists_of_interrupted (Trace.interrupted_of_offstage ht)
    hands := fun _ => Hands.insists }
  have A : Acts x (.named scenario feature id) (fun _ t _ _ => t.insists = true) (fun _ => True)
      fun _ => True := by
    refine ⟨⟨S.sequential, fun ht _ => S.aside ht, fun _ _ _ _ _ _ _ _ => insists_invoke hw, ?_⟩,
      fun _ _ _ => rfl⟩
    exact fun _ _ _ _ _ _ _ h => (ends_recordHook h).2.insists
  have T : TraceActs x (.named scenario feature id) (fun t => t.insists = true) (fun _ => True)
      fun _ => True :=
    ⟨A.toRunActs (fun _ => S.recordStep) fun _ _ => S.transition, S, fun _ _ => trivial, trivial⟩
  obtain ⟨l', hc⟩ := runs_run_iff.1 h
  exact T.runCase hc

end Executor
end Rehearsal
