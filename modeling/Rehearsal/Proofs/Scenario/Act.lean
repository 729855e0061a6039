import Rehearsal.Proofs.Effect
import Rehearsal.Proofs.Observation
import Rehearsal.Run.Scenario

/-! The acts of which the run of a scenario is made: what moments each of them leaves, how it changes
the ledger, and by what it can be cut short. -/

namespace Rehearsal
set_option autoImplicit false

variable {l l' : Ledger} {t : Trace}

theorem Effect.ends_told {r : Request} {g : r.Answer → Option Fault} {o : Except Fault Unit}
    (hoff : ∀ a m, Moment.isOffstage ⟨r, a, m⟩ = true)
    (htame : ∀ a m, Moment.tame ⟨r, a, m⟩ = true → g a = none)
    (h : Ends (Effect.perform r >>= fun a => Effect.proceed (g a)) l t o l') :
    l' = l ∧ t.offstage = true ∧ (t.tame = true → o = .ok ()) := by
  obtain ⟨rfl, a, m, rfl, ho⟩ := Effect.ends_perform_proceed_iff.1 h
  refine ⟨rfl, ?_, fun ht => ?_⟩
  · exact Bool.and_eq_true_iff.2 ⟨hoff a m, rfl⟩
  · rw [htame a m (Bool.and_eq_true_iff.1 ht).1] at ho
    cases o with
    | ok _ => rfl
    | error f => cases ho

theorem Effect.ends_log {logger : Logger} {level : LogLevel} {message : String}
    {fields : List (String × Datum)} {o : Except Fault Unit}
    (h : Ends (Effect.log logger level message fields) l t o l') :
    l' = l ∧ t.offstage = true ∧ (t.tame = true → o = .ok ()) := by
  unfold Effect.log at h
  split at h
  · refine Effect.ends_told (fun _ _ => rfl) (fun a m ht => ?_) h
    cases a with
    | none => rfl
    | some f => cases ht
  · obtain ⟨rfl, rfl, rfl⟩ := ends_pure_iff.1 h
    exact ⟨rfl, rfl, fun _ => rfl⟩

namespace Ledger

/-- The ledger after calls of which some ended in an interrupt, or none did. -/
def strike (l : Ledger) (hit : Bool) : Ledger := { l with interrupted := l.interrupted || hit }

@[simp] theorem strike_false (l : Ledger) : l.strike false = l := by simp [strike]

end Ledger

namespace Executor
variable {x : Executor} {c : Case}

/-- How handing a record over can end. Where no one takes records it leaves nothing behind. -/
inductive Hands (x : Executor) (r : Record) : Trace → Option Fault → Prop where
  | silent : x.emits = false → Hands x r [] none
  | loud (e : Option Fault) (m : Bool) : x.emits = true → Hands x r [⟨.emit r, e, m⟩] e

theorem ends_emit {r : Record} {o : Except Fault Unit} (h : Ends (x.emit r) l t o l') :
    l' = l ∧ x.Hands r t (errorIn o) := by
  unfold emit at h
  split at h
  · rename_i he
    obtain ⟨rfl, f, m, rfl, rfl⟩ := Effect.ends_perform_proceed_iff.1 h
    exact ⟨rfl, .loud _ _ he⟩
  · rename_i he
    obtain ⟨rfl, rfl, rfl⟩ := ends_pure_iff.1 h
    exact ⟨rfl, .silent (Bool.not_eq_true _ ▸ he)⟩

theorem Hands.handed {r : Record} {e : Option Fault} (h : x.Hands r t e) (he : x.emits = true) :
    t.handed = [(r, e)] := by
  cases h with
  | silent hn => exact nomatch hn.symm.trans he
  | loud e m _ => rfl

theorem Hands.records {r : Record} {e : Option Fault} (h : x.Hands r t e) (he : x.emits = true) :
    t.records = [r] := by
  rw [Trace.records, h.handed he]
  rfl

theorem Hands.steps {r : Record} {f : Option Fault} (he : x.emits = true) (h : x.Hands r t f) :
    t.steps = r.step?.toList := by
  rw [Trace.steps, h.records he]
  cases r <;> rfl

/-- Is the scenario to stop: it was interrupted, or the signal is looked at and set. -/
def Stopping (x : Executor) (l : Ledger) (requested : Bool) : Bool :=
  l.interrupted || x.watches && requested

theorem ends_stopped {o : Except Fault Bool} (h : Ends x.stopped l t o l') :
    l' = l ∧ t.offstage = true ∧ ∃ b, o = .ok b ∧ ∀ requested, t.heeds requested = true →
      b = x.Stopping l requested ∧ t.signal requested = requested := by
  rw [stopped, ends_get_bind_iff] at h
  by_cases hi : l.interrupted = true
  · rw [if_pos hi] at h
    obtain ⟨rfl, rfl, rfl⟩ := ends_pure_iff.1 h
    exact ⟨rfl, rfl, true, rfl, fun _ _ => ⟨by simp_all [Stopping], rfl⟩⟩
  · rw [if_neg hi] at h
    by_cases hw : x.watches = true
    · rw [if_pos hw] at h
      obtain ⟨rfl, b, m, rfl, rfl⟩ := Effect.ends_aborted_iff.1 h
      refine ⟨rfl, rfl, b, rfl, fun requested hr => ?_⟩
      cases b <;> simp_all [Stopping, Trace.heeds, Moment.heeds, Trace.signal]
    · rw [if_neg hw] at h
      obtain ⟨rfl, rfl, rfl⟩ := ends_pure_iff.1 h
      exact ⟨rfl, rfl, false, rfl, fun _ _ => ⟨by simp_all [Stopping], rfl⟩⟩

theorem ends_interrupt {place : String} {o : Except Fault Unit}
    (h : Ends (x.interrupt c place) l t o l') :
    l' = l.strike true ∧ t.offstage = true ∧ (t.tame = true → o = .ok ()) := by
  have hl : ({ l with interrupted := true } : Ledger) = l.strike true := by simp [Ledger.strike]
  rw [interrupt, ends_modify_bind_iff, hl] at h
  split at h
  · obtain ⟨_, m, u, rfl, hlog⟩ := Effect.ends_perform_bind_iff.1 h
    obtain ⟨rfl, hu, ho⟩ := Effect.ends_log hlog
    exact ⟨rfl, by simpa [Trace.offstage, Moment.isOffstage] using hu,
      fun ht => ho (by simpa [Trace.tame, Moment.tame] using ht)⟩
  · exact Effect.ends_log h

def countsAs (x : Executor) (place : String) : Option Fault → Status × Option ErrorInfo
  | none => (.passed, none)
  | some f =>
    match f.family with
    | .pending => (.pending, some (.ofFault f place false))
    | .ordinary => (.failed, some (.ofFault f place x.policy.captureStack))
    | .interrupt | .exit => (.failed, some (.ofFault f place false))

/-- The result of a hook whose call ended in a fault, or in none. -/
def hookResult (x : Executor) (c : Case) (h : Hook) (f : Option Fault) : HookResult :=
  ⟨h.phase, h.name, (x.countsAs h.name f).1, some c.id, (x.countsAs h.name f).2, noDuration⟩

/-- A call is one moment, with what is logged of it. The interrupt in which it ends is noted. -/
theorem ends_invoke {callable : Callable} {args : List Argument} {place : String}
    {o : Except Fault (Status × Option ErrorInfo)}
    (h : Ends (x.invoke c callable args place) l t o l') :
    ∃ f m, ∃ u : Trace, t = ⟨.call callable args, f, m⟩ :: u ∧ u.offstage = true ∧
      l' = l.strike t.interrupted ∧ (∀ r, o = .ok r → r = x.countsAs place f) ∧
      (t.tame = true → o = .ok (x.countsAs place f)) := by
  obtain ⟨f, m, u, rfl, hk⟩ := Effect.ends_perform_bind_iff.1 h
  change Option Fault at f
  refine ⟨f, m, u, rfl, ?_⟩
  suffices hs : Trace.offstage u = true ∧ l' = l.strike (f.any (·.family == .interrupt)) ∧
      (∀ r, o = .ok r → r = x.countsAs place f) ∧
      (f.all (·.family != .exit) = true → Trace.tame u = true →
        o = .ok (x.countsAs place f)) by
    obtain ⟨hu, rfl, ho, ht⟩ := hs
    refine ⟨hu, by simp [Trace.interrupted_of_offstage hu], ho, fun h => ?_⟩
    rw [Trace.tame_cons, Bool.and_eq_true, Moment.tame_call] at h
    exact ht h.1 h.2
  rcases f with _ | f
  · obtain ⟨rfl, rfl, rfl⟩ := ends_pure_iff.1 hk
    simp [countsAs, Trace.offstage]
  · cases hf : f.family with
    | pending =>
      simp only [hf] at hk
      obtain ⟨rfl, rfl, rfl⟩ := ends_pure_iff.1 hk
      simp [countsAs, Trace.offstage, hf, show (Fault.Family.pending == .interrupt) = false from rfl]
    | ordinary =>
      simp only [hf] at hk
      rcases ends_bind_iff.1 hk with ⟨v, w, _, l₁, rfl, hl, hp⟩ | ⟨e, rfl, hl⟩
      · obtain ⟨rfl, rfl, rfl⟩ := ends_pure_iff.1 hp
        obtain ⟨rfl, hv, _⟩ := Effect.ends_log hl
        simp [countsAs, hf, hv, show (Fault.Family.ordinary == .interrupt) = false from rfl]
      · obtain ⟨rfl, hu, ho⟩ := Effect.ends_log hl
        refine ⟨hu, by simp [hf, show (Fault.Family.ordinary == .interrupt) = false from rfl],
          by simp, fun _ ht => ?_⟩
        cases ho ht
    | interrupt =>
      simp only [hf] at hk
      rcases ends_bind_iff.1 hk with ⟨v, w, _, l₁, rfl, hl, hp⟩ | ⟨e, rfl, hl⟩
      · obtain ⟨rfl, rfl, rfl⟩ := ends_pure_iff.1 hp
        obtain ⟨rfl, hv, _⟩ := ends_interrupt hl
        simp [countsAs, hf, hv]
      · obtain ⟨rfl, hu, ho⟩ := ends_interrupt hl
        refine ⟨hu, by simp [hf], by simp, fun _ ht => ?_⟩
        cases ho ht
    | exit =>
      simp only [hf] at hk
      obtain ⟨rfl, rfl, rfl⟩ := ends_throw_iff.1 hk
      simp [Trace.offstage, hf, show (Fault.Family.exit == .interrupt) = false from rfl]

theorem ends_transition {stage : Stage} {index : Option Int} {o : Except Fault Unit}
    (h : Ends (x.transition c stage index) l t o l') :
    l' = l ∧ x.Hands (.stage ⟨c.id, stage, index, none⟩) t (errorIn o) :=
  ends_emit h

theorem ends_recordHook {r : HookResult} {o : Except Fault Unit}
    (h : Ends (x.recordHook r) l t o l') : l' = l.addHook r ∧ x.Hands (.hook r) t (errorIn o) := by
  rw [recordHook, ends_modify_bind_iff] at h
  exact ends_emit h

theorem ends_recordStep {r : StepResult} {o : Except Fault Unit}
    (h : Ends (x.recordStep r) l t o l') : l' = l.addStep r ∧ x.Hands (.step r) t (errorIn o) := by
  rw [recordStep, ends_modify_bind_iff] at h
  exact ends_emit h

theorem ends_tell {text : String} {patterns : List String} {o : Except Fault Unit}
    (h : Ends (x.tell text patterns) l t o l') :
    l' = l ∧ t.offstage = true ∧ (t.tame = true → o = .ok ()) := by
  rw [tell] at h
  split at h
  · obtain ⟨rfl, rfl, rfl⟩ := ends_pure_iff.1 h
    exact ⟨rfl, rfl, fun _ => rfl⟩
  · split at h
    · obtain ⟨rfl, rfl, rfl⟩ := ends_pure_iff.1 h
      exact ⟨rfl, rfl, fun _ => rfl⟩
    · refine Effect.ends_told (fun _ _ => rfl) (fun a m ht => ?_) h
      cases a with
      | none => rfl
      | some f => cases ht
    · exact Effect.ends_log h

def unmatched (x : Executor) : Verdict :=
  ⟨if x.policy.undefinedFails then .failed else .pending, none, true, none⟩

theorem ends_undefinedVerdict {s : Step} {o : Except Fault Verdict}
    (h : Ends (x.undefinedVerdict c s) l t o l') :
    l' = l ∧ t.offstage = true ∧ (∀ v, o = .ok v → v = x.unmatched) ∧
      (t.tame = true → o = .ok x.unmatched) := by
  rcases ends_bind_iff.1 h with ⟨u, v, _, l₁, rfl, hl, hp⟩ | ⟨e, rfl, hl⟩
  · obtain ⟨rfl, rfl, rfl⟩ := ends_pure_iff.1 hp
    obtain ⟨rfl, hu, _⟩ := Effect.ends_log hl
    rw [List.append_nil]
    exact ⟨rfl, hu, fun v hv => (Except.ok.inj hv).symm, fun _ => rfl⟩
  · obtain ⟨rfl, hu, ho⟩ := Effect.ends_log hl
    exact ⟨rfl, hu, nofun, fun ht => nomatch ho ht⟩

/-- What a step comes to that is not called. -/
def Uncalled (x : Executor) (v : Verdict) : Except Fault (Option StepMatch) → Prop
  | .error f =>
    isMatchFailure f = true ∧ v = ⟨.failed, none, false, some (ErrorInfo.ofFault f "matcher" false)⟩
  | .ok none => v = x.unmatched
  | .ok (some _) => False

/-- A step is called once, with the arguments of the definition that its text finds, or it is not called. -/
theorem ends_dispatch {d : DispatchTable} {s : Step} {o : Except Fault Verdict}
    (h : Ends (x.dispatch c d s) l t o l') :
    (l' = l ∧ t.offstage = true ∧
      ∀ v, o = .ok v → x.Uncalled v (x.matcher.matchText s.text d.definitions).result) ∨
    ∃ (m : StepMatch) (i : Instance) (u v : Trace) (r : Except Fault (Status × Option ErrorInfo)),
      (x.matcher.matchText s.text d.definitions).result = .ok (some m) ∧
      d.targets[m.order]? = some i ∧ t = u ++ v ∧ u.offstage = true ∧
      Ends (x.invoke c m.definition.callable (stepArguments i m.args s.argument)
        m.definition.location.display) l v r l' ∧
      o = r.map fun p => ⟨p.1, some m.definition.source, false, p.2⟩ := by
  rcases ends_bind_iff.1 h with ⟨u, v, _, l₁, rfl, htell, hk⟩ | ⟨f, rfl, htell⟩
  · obtain ⟨rfl, hu, _⟩ := ends_tell htell
    have haside : ∀ {w : Trace}, w.offstage = true → Trace.offstage (u ++ w) = true := by
      intro w hw
      rw [Trace.offstage, List.all_append]
      exact Bool.and_eq_true_iff.2 ⟨hu, hw⟩
    dsimp only at hk
    split at hk
    · rename_i f hf
      rw [hf]
      split at hk
      · rename_i hfail
        obtain ⟨rfl, rfl, rfl⟩ := ends_pure_iff.1 hk
        exact .inl ⟨rfl, haside rfl, fun v hv => ⟨hfail, (Except.ok.inj hv).symm⟩⟩
      · obtain ⟨rfl, rfl, rfl⟩ := ends_throw_iff.1 hk
        exact .inl ⟨rfl, haside rfl, nofun⟩
    · rename_i hnone
      obtain ⟨rfl, hv, hverdict, _⟩ := ends_undefinedVerdict hk
      rw [hnone]
      exact .inl ⟨rfl, haside hv, hverdict⟩
    · rename_i m hm
      split at hk
      · obtain ⟨rfl, rfl, rfl⟩ := ends_throw_iff.1 hk
        exact .inl ⟨rfl, haside rfl, nofun⟩
      · rename_i i hi
        obtain ⟨r, rfl, hcall⟩ := ends_bind_pure_iff.1 hk
        exact .inr ⟨m, i, u, v, r, hm, hi, rfl, hu, hcall, rfl⟩
  · obtain ⟨rfl, hu, _⟩ := ends_tell htell
    exact .inl ⟨rfl, hu, nofun⟩

end Executor
end Rehearsal
