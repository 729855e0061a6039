import Rehearsal.Proofs.Surroundings

/-! Accounting for steps. Every step gets one result, in order, whether it was run, skipped, or left
behind by an interrupt; the results of skipped steps come last. The loop over the steps keeps an
account of a first part of them, and what follows the loop completes it. -/

namespace Rehearsal
set_option autoImplicit false

/-- Where a result belongs: the index of its step, its text and its line. -/
def StepResult.place (r : StepResult) : Int × String × Value := (r.index, r.text, r.line)

def Step.places : Nat → List Step → List (Int × String × Value)
  | _, [] => []
  | index, s :: ss => (index, s.text, s.line) :: places (index + 1) ss

namespace Step

@[simp] theorem length_places (index : Nat) (ss : List Step) :
    (places index ss).length = ss.length := by
  induction ss generalizing index with
  | nil => rfl
  | cons s ss ih => rw [places, List.length_cons, ih, List.length_cons]

theorem drop_places (index n : Nat) (ss : List Step) :
    (places index ss).drop n = places (index + n) (ss.drop n) := by
  induction ss generalizing index n with
  | nil => simp [places]
  | cons s ss ih =>
    cases n with
    | zero => rfl
    | succ n =>
      rw [places, List.drop_succ_cons, ih, List.drop_succ_cons]
      congr 1
      omega

theorem getElem?_places (index : Nat) (ss : List Step) (i : Nat) :
    (places index ss)[i]? = ss[i]?.map fun s => (((index + i : Nat) : Int), s.text, s.line) := by
  induction ss generalizing index i with
  | nil => rfl
  | cons s ss ih =>
    cases i with
    | zero => rfl
    | succ i =>
      rw [places, List.getElem?_cons_succ, List.getElem?_cons_succ, ih]
      congr 1
      funext s
      congr 2
      omega

end Step

/-- An account of the first of some steps: results of steps that were run and of steps that were
skipped after them, each in its place. -/
structure Account (index : Nat) (ss : List Step) (ran skipped : List StepResult) : Prop where
  places : (ran ++ skipped).map StepResult.place <+: Step.places index ss
  ran : ∀ r ∈ ran, r.status ≠ .skipped
  skipped : ∀ r ∈ skipped, r.status = .skipped

namespace Account
variable {index : Nat} {ss : List Step} {ran skipped more : List StepResult} {s : Step}

theorem nil : Account index ss [] [] where
  places := List.nil_prefix
  ran _ hr := absurd hr List.not_mem_nil
  skipped _ hr := absurd hr List.not_mem_nil

theorem run {r : StepResult} (hp : r.place = ((index : Int), s.text, s.line))
    (hr : r.status ≠ .skipped) (h : Account (index + 1) ss ran skipped) :
    Account index (s :: ss) (r :: ran) skipped where
  places := by
    rw [List.cons_append, List.map_cons, hp, Step.places, List.prefix_cons_inj]
    exact h.places
  ran := List.forall_mem_cons.2 ⟨hr, h.ran⟩
  skipped := h.skipped

theorem skip {id : String} (h : Account (index + 1) ss [] skipped) :
    Account index (s :: ss) [] (.skipped id index s :: skipped) where
  places := by
    rw [List.nil_append, List.map_cons, Step.places]
    exact (List.prefix_cons_inj _).2 h.places
  ran _ hr := absurd hr List.not_mem_nil
  skipped := List.forall_mem_cons.2 ⟨rfl, h.skipped⟩

theorem append (h : Account index ss ran skipped)
    (hm : Account (index + (ran ++ skipped).length) (ss.drop (ran ++ skipped).length) [] more) :
    Account index ss ran (skipped ++ more) where
  places := by
    have hall := List.prefix_iff_eq_append.1 h.places
    rw [List.length_map, Step.drop_places] at hall
    rw [← hall, ← List.append_assoc, List.map_append, List.prefix_append_right_inj]
    exact hm.places
  ran := h.ran
  skipped r hr := (List.mem_append.1 hr).elim (h.skipped r) (hm.skipped r)

end Account

namespace Executor
variable {x : Executor} {c : Case} {l l' : Ledger} {t : Trace}

def KeepsSteps (l : Ledger) (_ : Trace) (_ : Option Fault) (l' : Ledger) : Prop := l'.steps = l.steps

theorem acts_keepsSteps : Acts x c KeepsSteps (fun _ => True) (fun _ => True) where
  refl _ := rfl
  trans h h' := h'.trans h
  offstage _ _ := rfl
  call callable args place _ := by
    intro l t o l' h
    obtain ⟨f, m, u, rfl, hu, rfl, _⟩ := ends_invoke h
    rfl
  hook k f _ := by
    intro l t o l' h
    obtain ⟨rfl, _⟩ := ends_recordHook h
    rfl
  stray _ _ _ := rfl

theorem countsAs_ne_skipped (place : String) (f : Option Fault) :
    (x.countsAs place f).1 ≠ .skipped := by
  unfold countsAs
  split
  · exact nofun
  · split <;> exact nofun

theorem Uncalled.ne_skipped {v : Verdict} {r : Except Fault (Option StepMatch)} (h : x.Uncalled v r) :
    v.status ≠ .skipped := by
  rcases r with f | _ | m
  · rw [h.2]
    exact nofun
  · have hv : v = x.unmatched := h
    rw [hv, unmatched]
    split <;> exact nofun
  · exact h.elim

theorem dispatch_ne_skipped {d : DispatchTable} {s : Step} {v : Verdict}
    (h : Ends (x.dispatch c d s) l t (.ok v) l') : v.status ≠ .skipped := by
  rcases ends_dispatch h with ⟨_, _, hv⟩ | ⟨_, _, _, _, r, _, _, _, _, hcall, hv⟩
  · exact (hv v rfl).ne_skipped
  · obtain ⟨f, _, _, _, _, _, hr, _⟩ := ends_invoke hcall
    cases r with
    | ok r =>
      rw [Except.ok.inj hv, hr r rfl]
      exact countsAs_ne_skipped _ f
    | error e => cases hv

theorem attempt_ne_skipped {d : DispatchTable} {index : Nat} {s : Step} {v : Verdict}
    (h : Ends (x.attempt c d index s) l t (.ok v) l') : v.status ≠ .skipped := by
  obtain ⟨u, w, ready, l₁, rfl, _, hk⟩ := ends_bind_ok_iff.1 h
  split at hk
  · exact dispatch_ne_skipped hk
  · rw [ends_get_bind_iff] at hk
    cases (ends_pure_iff.1 hk).2.1
    exact nofun

theorem review_ne_skipped {d : DispatchTable} {index : Nat} {s : Step} {v v' : Verdict}
    (hv : v.status ≠ .skipped) (h : Ends (x.review c d index s v) l t (.ok v') l') :
    v'.status ≠ .skipped := by
  obtain ⟨u, w, clean, l₁, rfl, _, hk⟩ := ends_bind_ok_iff.1 h
  split at hk
  · rw [ends_get_bind_iff] at hk
    cases (ends_pure_iff.1 hk).2.1
    exact nofun
  · cases (ends_pure_iff.1 hk).2.1
    exact hv

theorem keepsSteps_runHooks {d : DispatchTable} {phase : HookPhase} {scope : Scope} {halt : Bool}
    (hd : d.Fit) (hscope : scope.tags = some c.tags) :
    Upholds KeepsSteps (x.runHooks phase c d.arena scope halt) :=
  acts_keepsSteps.runHooks hscope hd.rooted trivial fun _ => trivial

theorem keepsSteps_attempt {d : DispatchTable} {index : Nat} {s : Step} (hd : d.Fit) :
    Upholds KeepsSteps (x.attempt c d index s) :=
  acts_keepsSteps.attempt hd trivial (fun _ _ _ => trivial) fun _ _ => trivial

theorem keepsSteps_review {d : DispatchTable} {index : Nat} {s : Step} {v : Verdict} (hd : d.Fit) :
    Upholds KeepsSteps (x.review c d index s v) :=
  acts_keepsSteps.review hd trivial fun _ _ => trivial

/-- A step that is run gets its result, unless handing over what comes before it failed. -/
theorem steps_runStep {d : DispatchTable} {index : Nat} {s : Step} (hd : d.Fit)
    {o : Except Fault StepResult} (h : Ends (x.runStep c d index s) l t o l') :
    (l'.steps = l.steps ∧ ∃ f, o = .error f) ∨
      ∃ r : StepResult, l'.steps = l.steps ++ [r] ∧ r.place = ((index : Int), s.text, s.line) ∧
        r.status ≠ .skipped ∧ ∀ r', o = .ok r' → r' = r := by
  rcases ends_bind_iff.1 h with ⟨u, w, v, l₁, rfl, ha, hk⟩ | ⟨f, rfl, ha⟩
  · rcases ends_bind_iff.1 hk with ⟨u', w', v', l₂, rfl, hr, hk⟩ | ⟨f, rfl, hr⟩
    · have hl : l₂.steps = l.steps := (keepsSteps_review hd hr).trans (keepsSteps_attempt hd ha)
      have hv : v'.status ≠ .skipped := review_ne_skipped (attempt_ne_skipped ha) hr
      obtain ⟨r, rfl, hs⟩ := ends_bind_pure_iff.1 hk
      obtain ⟨rfl, _⟩ := ends_recordStep hs
      refine .inr ⟨stepResult c index s v', ?_, rfl, hv, ?_⟩
      · rw [← hl]
        rfl
      · intro r' hr'
        cases r with
        | ok _ => exact (Except.ok.inj hr').symm
        | error f => cases hr'
    · exact .inl ⟨(keepsSteps_review hd hr).trans (keepsSteps_attempt hd ha), f, rfl⟩
  · exact .inl ⟨keepsSteps_attempt hd ha, f, rfl⟩

/-- A step that comes to a result is listed with it, and was not skipped. -/
theorem listed_of_runStep {d : DispatchTable} {index : Nat} {s : Step} {r : StepResult} (hd : d.Fit)
    (h : Ends (x.runStep c d index s) l t (.ok r) l') :
    l'.steps = l.steps ++ [r] ∧ r.place = ((index : Int), s.text, s.line) ∧ r.status ≠ .skipped := by
  rcases steps_runStep hd h with ⟨_, f, hf⟩ | ⟨r', hl, hplace, hran, hr⟩
  · cases hf
  · obtain rfl := hr r rfl
    exact ⟨hl, hplace, hran⟩

/-- Before each step the loop looks whether to skip it. -/
def Looks (x : Executor) (skip : Bool) (l : Ledger) (t : Trace) (stop : Bool) : Prop :=
  Ends (if skip = true then pure true else x.stopped) l t (.ok stop) l

theorem looks_of_ends {skip : Bool} {o : Except Fault Bool}
    (h : Ends (if skip = true then pure true else x.stopped) l t o l') :
    l' = l ∧ ∃ stop, o = .ok stop ∧ x.Looks skip l t stop := by
  have hend : l' = l ∧ ∃ stop, o = .ok stop := by
    split at h
    · obtain ⟨_, rfl, rfl⟩ := ends_pure_iff.1 h
      exact ⟨rfl, true, rfl⟩
    · obtain ⟨rfl, _, stop, rfl, _⟩ := ends_stopped h
      exact ⟨rfl, stop, rfl⟩
  obtain ⟨rfl, stop, rfl⟩ := hend
  exact ⟨rfl, stop, rfl, h⟩

namespace Looks
variable {skip stop requested : Bool}

theorem offstage (h : x.Looks skip l t stop) : t.offstage = true := by
  rw [Looks] at h
  split at h
  · rw [(ends_pure_iff.1 h).1]
    rfl
  · exact (ends_stopped h).2.1

theorem stop_iff (h : x.Looks skip l t stop) (hb : t.heeds requested = true) :
    (stop = true ↔ skip = true ∨ x.Stopping l requested = true) ∧ t.signal requested = requested := by
  rw [Looks] at h
  split at h
  · obtain ⟨rfl, hstop, _⟩ := ends_pure_iff.1 h
    cases hstop
    exact ⟨by simp [*], rfl⟩
  · obtain ⟨_, _, _, hr, hs⟩ := ends_stopped h
    cases hr
    obtain ⟨rfl, hsignal⟩ := hs requested hb
    exact ⟨by simp [*], hsignal⟩

/-- A step that is started was not to be skipped. -/
theorem goesOn {u : Trace} (h : x.Looks skip l t false) (hb : (t ++ u).heeds requested = true) :
    ¬ (skip = true ∨ x.Stopping l requested = true) := by
  rw [Trace.heeds_append, Bool.and_eq_true] at hb
  exact fun hstop => nomatch (h.stop_iff hb.1).1.2 hstop

end Looks

/-- How a turn of the loop over the steps goes. The step is skipped or started, and the others have their
turns after it, unless something is raised. -/
inductive LoopTurn (x : Executor) (c : Case) (d : DispatchTable) (index : Nat) (skip : Bool) (s : Step)
    (ss : List Step) (l : Ledger) : Trace → Except Fault Unit → Ledger → Prop where
  | skips (u v w : Trace) (l₁ : Ledger) {o : Except Fault Unit} {l' : Ledger} :
      x.Looks skip l u true →
      Ends (x.skipStep c index s) l v (.ok ()) l₁ →
      Ends (x.runSteps c d (index + 1) skip ss) l₁ w o l' →
      LoopTurn x c d index skip s ss l (u ++ (v ++ w)) o l'
  | skipRefused (u v : Trace) {f : Fault} {l' : Ledger} :
      x.Looks skip l u true →
      Ends (x.skipStep c index s) l v (.error f) l' →
      LoopTurn x c d index skip s ss l (u ++ v) (.error f) l'
  | starts (u v w z : Trace) (r : StepResult) (l₁ : Ledger) {o : Except Fault Unit} {l' : Ledger} :
      x.Looks skip l u false →
      Ends (x.transition c .runningStep (some (index : Int))) l v (.ok ()) l →
      Ends (x.runStep c d index s) l w (.ok r) l₁ →
      Ends (x.runSteps c d (index + 1) (x.ends r) ss) l₁ z o l' →
      LoopTurn x c d index skip s ss l (u ++ (v ++ (w ++ z))) o l'
  | startRefused (u v : Trace) {f : Fault} :
      x.Looks skip l u false →
      Ends (x.transition c .runningStep (some (index : Int))) l v (.error f) l →
      LoopTurn x c d index skip s ss l (u ++ v) (.error f) l
  | breaks (u v w : Trace) {f : Fault} {l' : Ledger} :
      x.Looks skip l u false →
      Ends (x.transition c .runningStep (some (index : Int))) l v (.ok ()) l →
      Ends (x.runStep c d index s) l w (.error f) l' →
      LoopTurn x c d index skip s ss l (u ++ (v ++ w)) (.error f) l'

theorem ends_runSteps_cons {d : DispatchTable} {index : Nat} {skip : Bool} {s : Step} {ss : List Step}
    {o : Except Fault Unit} (h : Ends (x.runSteps c d index skip (s :: ss)) l t o l') :
    x.LoopTurn c d index skip s ss l t o l' := by
  rw [runSteps] at h
  rcases ends_bind_iff.1 h with ⟨u, v, stop, l₁, rfl, hs, hk⟩ | ⟨f, rfl, hs⟩
  · obtain ⟨rfl, _, hstop, hs⟩ := looks_of_ends hs
    cases hstop
    cases stop with
    | true =>
      rcases ends_bind_iff.1 hk with ⟨v, w, _, l₂, rfl, hr, hrest⟩ | ⟨f, rfl, hr⟩
      · exact .skips u v w l₂ hs hr hrest
      · exact .skipRefused u v hs hr
    | false =>
      rcases ends_bind_iff.1 hk with ⟨v, w, _, l₂, rfl, ht, hk'⟩ | ⟨f, rfl, ht⟩
      · obtain ⟨rfl, _⟩ := ends_transition ht
        rcases ends_bind_iff.1 hk' with ⟨w, z, r, l₃, rfl, hr, hrest⟩ | ⟨f, rfl, hr⟩
        · exact .starts u v w z r l₃ hs ht hr hrest
        · exact .breaks u v w hs ht hr
      · obtain ⟨rfl, _⟩ := ends_transition ht
        exact .startRefused u v hs ht
  · obtain ⟨_, _, hstop, _⟩ := looks_of_ends hs
    cases hstop

/-- The loop over the steps adds an account of a first part of them, and of all if it is not cut
short. Once the scenario is to stop no step is run. -/
theorem steps_runSteps {d : DispatchTable} {index : Nat} {skip requested : Bool} {ss : List Step}
    {o : Except Fault Unit} (hd : d.Fit) (hb : t.heeds requested = true)
    (h : Ends (x.runSteps c d index skip ss) l t o l') :
    ∃ ran skipped, l'.steps = l.steps ++ (ran ++ skipped) ∧ Account index ss ran skipped ∧
      (o = .ok () → (ran ++ skipped).length = ss.length) ∧
      (skip = true ∨ x.Stopping l requested = true → ran = []) := by
  induction ss generalizing l t index skip requested with
  | nil =>
    obtain ⟨rfl, rfl, rfl⟩ := ends_pure_iff.1 h
    exact ⟨[], [], by simp, .nil, fun _ => rfl, fun _ => rfl⟩
  | cons s ss ih =>
    cases ends_runSteps_cons h with
    | skips u v w l₁ hs hr hrest =>
      rw [Trace.heeds_append, Bool.and_eq_true] at hb
      obtain ⟨hstop, hu⟩ := hs.stop_iff hb.1
      rw [hu, Trace.heeds_append, Bool.and_eq_true] at hb
      have hgo : skip = true ∨ x.Stopping l₁ (Trace.signal requested v) = true :=
        (hstop.1 rfl).imp_right ((runActs_noticed (c := c)).step _ hr |>.stopping hb.2.1)
      obtain ⟨rfl, _⟩ := ends_recordStep hr
      obtain ⟨ran, skipped, hl, ha, hlen, hran⟩ := ih hb.2.2 hrest
      obtain rfl := hran hgo
      refine ⟨[], .skipped c.id index s :: skipped, ?_, ha.skip, fun ho => ?_, fun _ => rfl⟩
      · rw [hl]
        exact List.append_assoc ..
      · simpa using hlen ho
    | skipRefused u v hs hr =>
      obtain ⟨rfl, _⟩ := ends_recordStep hr
      exact ⟨[], [.skipped c.id index s], rfl, Account.nil.skip, nofun, fun _ => rfl⟩
    | starts u v w z r l₁ hs ht hr hrest =>
      obtain ⟨hl₁, hp, hne⟩ := listed_of_runStep hd hr
      have hz := hb
      simp only [Trace.heeds_append, Bool.and_eq_true] at hz
      obtain ⟨ran, skipped, hl, ha, hlen, _⟩ := ih hz.2.2.2 hrest
      refine ⟨r :: ran, skipped, ?_, ha.run hp hne, fun ho => ?_,
        fun hstop => absurd hstop (hs.goesOn hb)⟩
      · rw [hl, hl₁, List.append_assoc]
        rfl
      · rw [List.cons_append, List.length_cons, hlen ho, List.length_cons]
    | startRefused u v hs ht => exact ⟨[], [], by simp, .nil, nofun, fun _ => rfl⟩
    | breaks u v w hs ht hr =>
      rcases steps_runStep hd hr with ⟨hl, _⟩ | ⟨r, hl, hp, hne, _⟩
      · exact ⟨[], [], by simp [hl], .nil, nofun, fun _ => rfl⟩
      · exact ⟨[r], [], by simp [hl], Account.nil.run hp hne, nofun,
          fun hstop => absurd hstop (hs.goesOn hb)⟩

theorem steps_skipAll {index : Nat} {ss : List Step} {o : Except Fault Unit}
    (h : Ends (x.skipAll c index ss) l t o l') :
    ∃ skipped, l'.steps = l.steps ++ skipped ∧ Account index ss [] skipped ∧
      (o = .ok () → skipped.length = ss.length) := by
  induction ss generalizing l t index with
  | nil =>
    obtain ⟨rfl, rfl, rfl⟩ := ends_pure_iff.1 h
    exact ⟨[], by simp, .nil, fun _ => rfl⟩
  | cons s ss ih =>
    rcases ends_bind_iff.1 h with ⟨u, v, _, l₁, rfl, hr, hk⟩ | ⟨f, rfl, hr⟩
    · obtain ⟨rfl, _⟩ := ends_recordStep hr
      obtain ⟨skipped, hl, ha, hlen⟩ := ih hk
      refine ⟨.skipped c.id index s :: skipped, ?_, ha.skip, fun ho => ?_⟩
      · rw [hl]
        exact List.append_assoc ..
      · rw [List.length_cons, hlen ho, List.length_cons]
    · obtain ⟨rfl, _⟩ := ends_recordStep hr
      exact ⟨[.skipped c.id index s], rfl, Account.nil.skip, nofun⟩

theorem steps_skipRemaining {ran skipped : List StepResult} (hl : l.steps = ran ++ skipped)
    (ha : Account 0 c.scenario.steps ran skipped) (h : Ends (x.skipRemaining c) l t (.ok ()) l') :
    ∃ more, l'.steps = ran ++ (skipped ++ more) ∧
      Account 0 c.scenario.steps ran (skipped ++ more) ∧
      (ran ++ (skipped ++ more)).length = c.scenario.steps.length := by
  rw [skipRemaining, ends_get_bind_iff] at h
  obtain ⟨more, hl', hm, hlen⟩ := steps_skipAll h
  rw [hl] at hl' hm hlen
  refine ⟨more, by rw [hl', List.append_assoc], ha.append (by rwa [Nat.zero_add]), ?_⟩
  have hle := ha.places.length_le
  rw [List.length_map, Step.length_places] at hle
  have hmore := hlen rfl
  rw [List.length_drop] at hmore
  rw [← List.append_assoc, List.length_append]
  omega

theorem steps_proceedThrough {d : DispatchTable} {requested : Bool} {o : Except Fault Unit}
    (hd : d.Fit) (hb : t.heeds requested = true) (h : Ends (x.proceedThrough c d) l t o l') :
    ∃ ran skipped, l'.steps = l.steps ++ (ran ++ skipped) ∧
      Account 0 c.scenario.steps ran skipped ∧
      (o = .ok () → (ran ++ skipped).length = c.scenario.steps.length) := by
  cases proceedRun_of_ends h with
  | refused t hstage => exact ⟨[], [], by simp, .nil, nofun⟩
  | halted u v hstage hhooks =>
    have hl : l'.steps = l.steps := keepsSteps_runHooks hd rfl hhooks
    exact ⟨[], [], by simp [hl], .nil, nofun⟩
  | @proceeded u v w ready o l₁ l' hstage hhooks hsteps =>
    have hl₁ : l₁.steps = l.steps := keepsSteps_runHooks hd rfl hhooks
    rw [Trace.heeds_append, Trace.heeds_append, Bool.and_eq_true, Bool.and_eq_true] at hb
    obtain ⟨ran, skipped, hl, ha, hlen, _⟩ := steps_runSteps hd hb.2.2 hsteps
    exact ⟨ran, skipped, hl₁ ▸ hl, ha, hlen⟩

theorem steps_cleanUp {a : Arena} {o : Except Fault Unit} (ha : a.nodes ≠ [])
    (h : Ends (x.cleanUp c a) l t o l') : l'.steps = l.steps := by
  refine acts_keepsSteps.cleanUp ha trivial ?_ (fun _ _ => trivial) h
  intro l t o l' h
  rw [(ends_transition h).1]
  rfl

end Executor

/-- Handing a record over fails at most once, with an interrupt, after the first stage was announced
and before the stage of the cleanup is. -/
def Trace.OnceInterrupted (t : Trace) : Prop :=
  t.taken = true ∨ ∃ before r f after, t.handed = before ++ (r, some f) :: after ∧
    f.family = .interrupt ∧ (∃ p ∈ before, p.1.announces .initializing = true) ∧
      (∀ p ∈ before ++ [(r, some f)], p.1.announces .runningAfterHooks = false) ∧
      ∀ p ∈ before ++ after, p.2 = none

theorem Trace.onceInterrupted_of_getElem? {t : Trace} (n : Nat)
    (hf : (t.handed[n]?.bind (·.2)).any (·.family == .interrupt) = true)
    (hfirst : (t.handed.take n).any (·.1.announces .initializing) = true)
    (hlate : (t.handed.take (n + 1)).any (·.1.announces .runningAfterHooks) = false)
    (hnone : (t.handed.take n ++ t.handed.drop (n + 1)).all (·.2.isNone) = true) :
    t.OnceInterrupted := by
  rw [Option.any_eq_true] at hf
  obtain ⟨f, hf, hi⟩ := hf
  obtain ⟨r, g, hsplit, htake, hat⟩ := handed_split (Option.isSome_of_eq_some hf)
  obtain rfl : g = f := by simpa [hat] using hf
  refine .inr ⟨t.handed.take n, r, g, t.handed.drop (n + 1), hsplit, eq_of_beq hi, ?_, ?_, ?_⟩
  · simpa using hfirst
  · rw [htake, List.any_eq_false] at hlate
    exact fun p hp => Bool.not_eq_true _ ▸ hlate p hp
  · rw [List.all_eq_true] at hnone
    exact fun p hp => Option.isNone_iff_eq_none.1 (hnone p hp)

theorem eq_of_append_eq_append_of_forall_not {α : Type} {P : α → Prop} {a b a' b' : List α} {p q : α}
    (h : a ++ p :: b = a' ++ q :: b') (hp : P p) (hno : ∀ r ∈ a' ++ b', ¬ P r) :
    a = a' ∧ p = q ∧ b = b' := by
  induction a generalizing a' with
  | nil =>
    cases a' with
    | nil =>
      obtain ⟨rfl, rfl⟩ := List.cons.inj h
      exact ⟨rfl, rfl, rfl⟩
    | cons y a' =>
      obtain ⟨rfl, _⟩ := List.cons.inj h
      exact absurd hp (hno p List.mem_cons_self)
  | cons y a ih =>
    cases a' with
    | nil =>
      obtain ⟨rfl, rfl⟩ := List.cons.inj h
      exact absurd hp (hno p (List.mem_append_right a List.mem_cons_self))
    | cons z a' =>
      obtain ⟨rfl, he⟩ := List.cons.inj h
      obtain ⟨rfl, hrest⟩ := ih he fun r hr => hno r (List.mem_cons_of_mem _ hr)
      exact ⟨rfl, hrest⟩

namespace Executor
variable {x : Executor} {c : Case} {l l' : Ledger} {t : Trace}

theorem handed_cleanUp {a : Arena} {o : Except Fault Unit} (he : x.emits = true)
    (h : Ends (x.cleanUp c a) l t o l') :
    ∃ f rest, t.handed = (.stage ⟨c.id, .runningAfterHooks, none, none⟩, f) :: rest := by
  rcases ends_bind_iff.1 h with ⟨u, v, _, l₁, rfl, ht, _⟩ | ⟨f, rfl, ht⟩
  · refine ⟨none, Trace.handed v, ?_⟩
    rw [Trace.handed_append, (ends_transition ht).2.handed he]
    rfl
  · exact ⟨some f, [], (ends_transition ht).2.handed he⟩

/-- A part of a run that is cut short is cut by the one interrupt. -/
theorem interrupt_of_cutBy {u v : Trace} {f : Fault} (h : Trace.OnceInterrupted (u ++ (t ++ v)))
    (hc : x.CutBy t (some f)) :
    f.family = .interrupt ∧ v.taken = true ∧
      ∀ r ∈ (u ++ t).records, r.announces .runningAfterHooks = false := by
  obtain ⟨_, w, r, m, rfl, _⟩ := hc
  have hh : Trace.handed (u ++ (w ++ [⟨.emit r, some f, m⟩] ++ v)) =
      (Trace.handed u ++ Trace.handed w) ++ (r, some f) :: Trace.handed v := by
    simp [Trace.handed, Moment.handed?]
  rcases h with h | ⟨before, r', f', after, he, hf, _, hbefore, hnone⟩
  · rw [Trace.taken, hh] at h
    simp at h
  · obtain ⟨rfl, hr, rfl⟩ := eq_of_append_eq_append_of_forall_not (P := fun p => p.2 ≠ none)
      (hh.symm.trans he) (Option.some_ne_none f) fun p hp => not_not_intro (hnone p hp)
    cases hr
    refine ⟨hf, ?_, fun r' hr' => ?_⟩
    · rw [Trace.taken, List.all_eq_true]
      exact fun p hp => by rw [hnone p (List.mem_append_right _ hp)]; rfl
    · obtain ⟨p, hp, rfl⟩ := List.mem_map.1 hr'
      refine hbefore p ?_
      simpa [Trace.handed, Moment.handed?] using hp

/-- What the loop has left open is completed after an interrupt, so that there is one result for every
step. -/
theorem completed_of_recover {d : DispatchTable} {u v t₁ t₂ : Trace} {requested : Bool}
    {r₁ r₂ : Except Fault Unit} {l₁ l₂ : Ledger} (hd : d.Fit) (ho : x.Orderly c)
    (ht₁ : t₁.tame = true) (ht₂ : t₂.tame = true) (hb : t₁.heeds requested = true)
    (hi : Trace.OnceInterrupted (u ++ (t₁ ++ (t₂ ++ v)))) (hl : l.steps = [])
    (hproceed : Ends (x.proceedThrough c d) l t₁ r₁ l₁)
    (hrecover : Ends (x.recover c r₁) l₁ t₂ (.ok r₂) l₂) :
    r₂ = .ok () ∧ ∃ ran skipped, l₂.steps = ran ++ skipped ∧
      Account 0 c.scenario.steps ran skipped ∧
      (ran ++ skipped).length = c.scenario.steps.length := by
  obtain ⟨ran, skipped, hl₁, ha, hlen⟩ := steps_proceedThrough hd hb hproceed
  rw [hl, List.nil_append] at hl₁
  cases r₁ with
  | ok _ =>
    obtain ⟨_, hr, ⟨rfl, rfl, rfl, _⟩ | ⟨f, hf, _⟩⟩ := ends_recover hrecover
    · exact ⟨Except.ok.inj hr, ran, skipped, hl₁, ha, hlen rfl⟩
    · cases hf
  | error f =>
    have hcut := runActs_onlyCutBySink.proceedThrough hd hproceed ho ht₁
    obtain ⟨hf, htaken, _⟩ := interrupt_of_cutBy hi hcut
    rw [Trace.taken_append, Bool.and_eq_true] at htaken
    obtain ⟨r', hr, ⟨_, _, _, hne⟩ | ⟨_, _, _, hcase⟩⟩ := ends_recover hrecover
    · exact absurd hf (hne f rfl)
    · cases hr
      rcases hcase with ⟨v', w, l₄, rfl, hint, hskip⟩ | ⟨g, _, hint⟩
      · obtain ⟨rfl, _, _⟩ := ends_interrupt hint
        rw [Trace.tame_append, Bool.and_eq_true] at ht₂
        rw [Trace.taken_append, Bool.and_eq_true] at htaken
        have hcut := runActs_onlyCutBySink.skipRemaining hskip ho ht₂.2
        cases r₂ with
        | ok _ =>
          have hl₁ : (l₁.strike true).steps = ran ++ skipped := hl₁
          obtain ⟨more, hl₂, ha, hlen⟩ := steps_skipRemaining hl₁ ha hskip
          exact ⟨rfl, ran, skipped ++ more, hl₂, ha, hlen⟩
        | error g => cases hcut.eq_none htaken.1.2
      · cases (ends_interrupt hint).2.2 ht₂

/-- A run whose sink interrupts it at most once, midway, comes to a result that accounts for every
step. -/
theorem accounted_runComposed {d : DispatchTable} {u : Trace} {requested : Bool}
    {o : Except Fault ScenarioResult} (hd : d.Fit) (ho : x.Orderly c) (ht : t.tame = true)
    (hb : t.heeds requested = true) (hi : Trace.OnceInterrupted (u ++ t)) (hl : l.steps = [])
    (h : Ends (x.runComposed c d) l t o l') :
    ∃ r ran skipped, o = .ok r ∧ r.steps = ran ++ skipped ∧
      Account 0 c.scenario.steps ran skipped ∧ r.steps.length = c.scenario.steps.length := by
  obtain ⟨t₁, t₂, t₃, t₄, r₁, r₂, r₃, l₁, l₂, l₃, rfl, hproceed, hrecover, hclean, hend⟩ :=
    ends_runComposed h
  simp only [Trace.tame_append, Trace.heeds_append, Bool.and_eq_true] at ht hb
  obtain ⟨ht₁, ht₂, ht₃, ht₄⟩ := ht
  have hcut₃ := onlyCutBySink_cleanUp hd.rooted hclean ho ht₃
  obtain ⟨hr₂, ran, skipped, hl₂, ha, hlen⟩ :=
    completed_of_recover hd ho ht₁ ht₂ hb.1 hi hl hproceed hrecover
  rw [← steps_cleanUp hd.rooted hclean] at hl₂
  -- Neither the cleanup nor what makes the result known is cut short, as the cleanup was announced.
  have hlate : ∀ {v w z v' v'' : Trace} {f : Fault},
      u ++ (t₁ ++ (t₂ ++ (t₃ ++ t₄))) = v ++ (w ++ z) → v ++ w = v' ++ (t₃ ++ v'') →
        ¬ x.CutBy w (some f) := by
    intro v w z v' v'' f hvwz hvw hcut
    obtain ⟨g, rest, hg⟩ := handed_cleanUp hcut.1 hclean
    have hno := (interrupt_of_cutBy (hvwz ▸ hi) hcut).2.2
      (.stage ⟨c.id, .runningAfterHooks, none, none⟩)
    rw [hvw] at hno
    cases hno (by simp [Trace.records, hg])
  cases r₃ with
  | error f =>
    have heq : u ++ (t₁ ++ (t₂ ++ (t₃ ++ t₄))) = (u ++ (t₁ ++ t₂)) ++ (t₃ ++ t₄) := by simp
    exact absurd hcut₃ (hlate heq (by rw [List.append_nil]))
  | ok _ =>
    rcases hend with ⟨_, _, hk⟩ | ⟨_, _, f, _, hf | ⟨_, hf⟩⟩
    · have hcut₄ := closingActs_onlyCutBySink.conclude hk ho ht₄
      cases o with
      | error f =>
        have heq : u ++ (t₁ ++ (t₂ ++ (t₃ ++ t₄))) = (u ++ (t₁ ++ t₂) ++ t₃) ++ (t₄ ++ []) := by
          simp
        exact absurd hcut₄ (hlate heq (List.append_assoc ..))
      | ok r =>
        obtain ⟨stage, rfl, _⟩ := ends_conclude hk
        exact ⟨_, ran, skipped, rfl, hl₂, ha, (congrArg List.length hl₂).trans hlen⟩
    · cases hf
    · cases hr₂.symm.trans hf

theorem accounted_run {scenario : Scenario} {feature : Option Feature} {id : Option String}
    {d : DispatchTable} {requested : Bool} {o : Except Fault ScenarioResult}
    (h : (x.run scenario feature id).Runs t o)
    (hp : x.Prepared (.named scenario feature id) t d)
    (ho : x.Orderly (.named scenario feature id)) (ht : t.tame = true)
    (hb : t.heeds requested = true) (hi : t.OnceInterrupted) :
    ∃ r ran skipped, o = .ok r ∧ r.steps = ran ++ skipped ∧
      Account 0 scenario.steps ran skipped ∧ r.steps.length = scenario.steps.length ∧
      (x.emits = true → t.steps = r.steps) := by
  obtain ⟨l', hc⟩ := runs_run_iff.1 h
  obtain ⟨hd, u, v, rfl, hs, hk⟩ := hp.ends hc
  rw [Trace.tame_append, Bool.and_eq_true] at ht
  rw [Trace.heeds_append, Bool.and_eq_true] at hb
  obtain ⟨r, ran, skipped, rfl, hr, ha, hlen⟩ :=
    accounted_runComposed hd ho ht.2 hb.2 hi rfl hk
  refine ⟨r, ran, skipped, rfl, hr, ha, hlen, fun he => ?_⟩
  obtain ⟨hit, stage, rfl⟩ := entered_runComposed hd he hk
  rw [Trace.steps_append, (quiet_setUp hs).2.2.2]
  rfl

/-- A run on contexts, of callables that do not exit, with a sink that interrupts it at most once and
midway, returns a result. Every step has one result in its place; each of them is handed over, once
and in order; and from some step on all are skipped, before it none. -/
theorem run_accounts_for_steps {scenario : Scenario} {feature : Option Feature} {id : Option String}
    {d : DispatchTable} {requested : Bool} {o : Except Fault ScenarioResult}
    (h : (x.run scenario feature id).Runs t o)
    (hp : x.Prepared (.named scenario feature id) t d)
    (ho : x.Orderly (.named scenario feature id)) (ht : t.tame = true)
    (hb : t.heeds requested = true) (hi : t.OnceInterrupted) :
    ∃ r, o = .ok r ∧ r.steps.length = scenario.steps.length ∧
      (∀ (i : Nat) s sr, scenario.steps[i]? = some s → r.steps[i]? = some sr →
        sr.index = i ∧ sr.text = s.text ∧ sr.line = s.line) ∧
      (x.emits = true → t.steps = r.steps) ∧
      ∃ k, (∀ sr ∈ r.steps.take k, sr.status ≠ .skipped) ∧
        ∀ sr ∈ r.steps.drop k, sr.status = .skipped := by
  obtain ⟨r, ran, skipped, rfl, hr, ha, hlen, hsteps⟩ := accounted_run h hp ho ht hb hi
  refine ⟨r, rfl, hlen, ?_, hsteps, ran.length, ?_, ?_⟩
  · intro i s sr hs hsr
    have hplaces : r.steps.map StepResult.place = Step.places 0 scenario.steps := by
      rw [hr]
      refine ha.places.eq_of_length ?_
      rw [List.length_map, Step.length_places, ← hr, hlen]
    have hi := congrArg (·[i]?) hplaces
    simp only [List.getElem?_map, hsr, Step.getElem?_places, hs, Option.map_some, Nat.zero_add] at hi
    obtain ⟨hindex, hrest⟩ := Prod.mk.inj (Option.some.inj hi)
    exact ⟨hindex, Prod.mk.inj hrest⟩
  · rw [hr, List.take_left]
    exact ha.ran
  · rw [hr, List.drop_left]
    exact ha.skipped

/-- The sink interrupts the run as it takes the result of the first step. -/
theorem run_accounts_for_steps_sample :
    let x := Sample.executor [Sample.hook .beforeStep 1 "ring", Sample.hook .afterScenario 2 "pay"]
    let w := Sample.surroundings
      (fun n => if n = 4 then some (.ofKind "KeyboardInterrupt" "") else none) fun _ => none
    let t := w.traceOf (x.run Sample.scenario none none)
    t.OnceInterrupted ∧ ∃ r, w.resultOf (x.run Sample.scenario none none) = .ok r ∧
      r.steps.length = 2 ∧ t.steps = r.steps := by
  intro x w t
  have hi : t.OnceInterrupted := by
    have hc : compose x.root = _ := compose_leaf ..
    refine Trace.onceInterrupted_of_getElem? 4 ?_ ?_ ?_ ?_ <;>
      unfold t Surroundings.traceOf Executor.run Executor.runCase Executor.setUp <;> rw [hc] <;>
      decide +kernel
  obtain ⟨r, hr, hlen, _, hsteps, _⟩ := run_accounts_for_steps (w.runs_traceOf _)
    (Sample.prepared rfl) (Sample.orderly (by decide))
    (Surroundings.tame_traceOf _ (Sample.tame nofun)) (w.heeds_traceOf _) hi
  exact ⟨hi, r, hr, hlen, hsteps rfl⟩

end Executor
end Rehearsal
