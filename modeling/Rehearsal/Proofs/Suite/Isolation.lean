import Rehearsal.Proofs.Suite.Hooks
import Rehearsal.Proofs.Suite.Lodging
import Rehearsal.Proofs.Suite.Surroundings

/-! A suite that runs its scenarios in a pool, compared with the one that runs them in order. Where scenarios
have quarters of their own it makes no difference: both come to the same result, and they hand over the same
records, in an order of their own where scenarios overlap. -/

namespace Rehearsal
set_option autoImplicit false

namespace Request

/-- Does a request come from around the scenarios? -/
def isFrame : Request → Bool
  | .emit _ | .log _ | .aborted | .flush | .call _ [.scope _] => true
  | _ => false

end Request

/-- What comes from around the scenarios asks for no abort, and ends in no error. -/
def SuiteRequest.framing : Terms SuiteRequest.Answer Fault where
  asks
    | .single r => r.isFrame = true
    | _ => False
  answers
    | .single r, x => r.Contained x
    | _, _ => True
  raises _ := False

theorem SuiteRequest.framing_framing : Framing (fun _ => True) framing where
  emit _ := rfl
  log _ := rfl
  call _ _ _ := rfl
  aborted := rfl
  interrupted _ _ f hf hi _ := absurd hi (Request.family_of_contained (hf f rfl)).1
  refused _ _ hf := nomatch hf
  unlogged _ _ hf := nomatch hf
  exited _ _ f hf he := absurd he (Request.family_of_contained (hf f rfl)).2

namespace Quarters
variable {q : Quarters} {m n : Nat} {α β : Type}

/-- Two plays have come to the same. Both went well, and no one requests an abort. -/
structure Agree (t₁ t₂ : Trace) (r₁ r₂ : Except Fault α × List FeatureResult) (w₁ w₂ : q.Site × q.Plot) :
    Prop where
  ok : ∃ a, r₁.1 = .ok a
  ends : r₁ = r₂
  site : w₁.1 = w₂.1
  calm : w₁.1.requested = false
  records : t₁.records.Perm t₂.records

/-- Two actions, in the hands of as many workers as are given, do not stall and come to the same from here
on. -/
structure Meet (q : Quarters) (m n : Nat) (l : List FeatureResult) (w₁ w₂ : q.Site × q.Plot)
    (x y : Suite.Action α) : Prop where
  left : ∃ t r w, q.Plays m (x.run.run l) w₁ t r w
  right : ∃ t r w, q.Plays n (y.run.run l) w₂ t r w
  agree : ∀ ⦃t₁ t₂ r₁ r₂ w₁' w₂'⦄, q.Plays m (x.run.run l) w₁ t₁ r₁ w₁' →
    q.Plays n (y.run.run l) w₂ t₂ r₂ w₂' → Agree t₁ t₂ r₁ r₂ w₁' w₂'

/-- They come to the same wherever they begin, as long as no one requests an abort. -/
def Alike (q : Quarters) (m n : Nat) (x y : Suite.Action α) : Prop :=
  ∀ ⦃l w₁ w₂⦄, w₁.1 = w₂.1 → w₁.1.requested = false → q.Meet m n l w₁ w₂ x y

section Alike

theorem alike_pure (a : α) : q.Alike m n (pure a : Suite.Action α) (pure a) := by
  intro l w₁ w₂ hσ hcalm
  refine ⟨⟨_, _, _, .done _ _⟩, ⟨_, _, _, .done _ _⟩, ?_⟩
  intro t₁ t₂ r₁ r₂ w₁' w₂' h₁ h₂
  obtain ⟨rfl, rfl, rfl⟩ := plays_done_iff.1 h₁
  obtain ⟨rfl, rfl, rfl⟩ := plays_done_iff.1 h₂
  exact ⟨⟨a, rfl⟩, rfl, hσ, hcalm, .refl _⟩

/-- Of two plays, each with what comes after it. -/
theorem Agree.append {t₁ t₂ u₁ u₂ : Trace} {r₁ r₂ : Except Fault α × List FeatureResult}
    {s₁ s₂ : Except Fault β × List FeatureResult} {w₁ w₂ w₁' w₂' : q.Site × q.Plot}
    (h : Agree t₁ t₂ r₁ r₂ w₁ w₂) (h' : Agree u₁ u₂ s₁ s₂ w₁' w₂') :
    Agree (t₁ ++ u₁) (t₂ ++ u₂) s₁ s₂ w₁' w₂' := by
  refine ⟨h'.ok, h'.ends, h'.site, h'.calm, ?_⟩
  rw [Trace.records_append, Trace.records_append]
  exact h.records.append h'.records

/-- Two actions that meet, each with what comes of its end, where that goes on alike from an end that is
well. -/
theorem Meet.go_on {x y : Suite.Action α} {x' y' : Suite.Action β} {l : List FeatureResult}
    {w₁ w₂ : q.Site × q.Plot} {f g : Except Fault α → Suite.Action β} (hx : q.Meet m n l w₁ w₂ x y)
    (hx' : x'.run.run l = x.run.run l >>= fun p => (f p.1).run.run p.2)
    (hy' : y'.run.run l = y.run.run l >>= fun p => (g p.1).run.run p.2)
    (hf : ∀ a, q.Alike m n (f (.ok a)) (g (.ok a))) : q.Meet m n l w₁ w₂ x' y' := by
  have hnext : ∀ {t₁ t₂ r₁ r₂ z₁ z₂}, q.Plays m (x.run.run l) w₁ t₁ r₁ z₁ →
      q.Plays n (y.run.run l) w₂ t₂ r₂ z₂ → Agree t₁ t₂ r₁ r₂ z₁ z₂ ∧
        q.Meet m n r₁.2 z₁ z₂ (f r₁.1) (g r₂.1) := by
    intro t₁ t₂ r₁ r₂ z₁ z₂ h₁ h₂
    have hagree := hx.agree h₁ h₂
    obtain ⟨a, ha⟩ := hagree.ok
    refine ⟨hagree, ?_⟩
    rw [← hagree.ends, ha]
    exact hf a hagree.site hagree.calm
  obtain ⟨t₁, r₁, z₁, h₁⟩ := hx.left
  obtain ⟨t₂, r₂, z₂, h₂⟩ := hx.right
  obtain ⟨hagree, hmeet⟩ := hnext h₁ h₂
  refine ⟨?_, ?_, ?_⟩
  · obtain ⟨u, r, w, hleft⟩ := hmeet.left
    exact ⟨_, r, w, hx' ▸ plays_bind_iff.2 ⟨t₁, u, r₁, z₁, rfl, h₁, hleft⟩⟩
  · obtain ⟨u, r, w, hright⟩ := hmeet.right
    exact ⟨_, r, w, hy' ▸ plays_bind_iff.2 ⟨t₂, u, r₂, z₂, rfl, h₂, hagree.ends ▸ hright⟩⟩
  · intro t₁ t₂ r₁ r₂ w₁' w₂' h₁ h₂
    rw [hx', plays_bind_iff] at h₁
    rw [hy', plays_bind_iff] at h₂
    obtain ⟨u₁, v₁, p₁, z₁, rfl, hx₁, hf₁⟩ := h₁
    obtain ⟨u₂, v₂, p₂, z₂, rfl, hx₂, hf₂⟩ := h₂
    obtain ⟨hagree, hmeet⟩ := hnext hx₁ hx₂
    exact hagree.append (hmeet.agree hf₁ (hagree.ends ▸ hf₂))

theorem Meet.bind {x y : Suite.Action α} {f g : α → Suite.Action β} {l : List FeatureResult}
    {w₁ w₂ : q.Site × q.Plot} (hx : q.Meet m n l w₁ w₂ x y) (hf : ∀ a, q.Alike m n (f a) (g a)) :
    q.Meet m n l w₁ w₂ (x >>= f) (y >>= g) := by
  have hrun : ∀ (x : Suite.Action α) (f : α → Suite.Action β), (x >>= f).run.run l =
      x.run.run l >>= fun p => (Suite.Action.settle p.1 >>= f).run.run p.2 := by
    intro x f
    rw [Suite.run_bind]
    congr 1
    funext p
    rcases p with ⟨_ | _, _⟩ <;> rfl
  exact hx.go_on (f := fun o => Suite.Action.settle o >>= f) (g := fun o => Suite.Action.settle o >>= g)
    (hrun x f) (hrun y g) hf

theorem alike_bind {x y : Suite.Action α} {f g : α → Suite.Action β} (hx : q.Alike m n x y)
    (hf : ∀ a, q.Alike m n (f a) (g a)) : q.Alike m n (x >>= f) (y >>= g) :=
  fun _ _ _ hσ hcalm => (hx hσ hcalm).bind hf

/-- What is run to its end goes well, and is seen to. -/
theorem alike_observe_bind {x y : Suite.Action α} {f g : Except Fault α → Suite.Action β}
    (hx : q.Alike m n x y) (hf : ∀ a, q.Alike m n (f (.ok a)) (g (.ok a))) :
    q.Alike m n (Suite.Action.observe x >>= f) (Suite.Action.observe y >>= g) := by
  have hrun : ∀ (x : Suite.Action α) (f : Except Fault α → Suite.Action β) (l : List FeatureResult),
      (Suite.Action.observe x >>= f).run.run l = x.run.run l >>= fun p => (f p.1).run.run p.2 := by
    intro x f l
    rw [ExceptT.run_bind, Suite.Action.observe, ExceptT.run_mk, LawfulMonad.bind_assoc, StateT.run_bind]
    rfl
  exact fun l _ _ hσ hcalm => (hx hσ hcalm).go_on (hrun x f l) (hrun y g l) hf

theorem alike_modify_bind {e : List FeatureResult → List FeatureResult} {f g : PUnit → Suite.Action β}
    (h : q.Alike m n (f ⟨⟩) (g ⟨⟩)) : q.Alike m n (modify e >>= f) (modify e >>= g) :=
  fun _ _ _ hσ hcalm => ⟨(h hσ hcalm).left, (h hσ hcalm).right, (h hσ hcalm).agree⟩

theorem serve_of_isFrame {r : Request} (hr : r.isFrame = true) (σ : q.Site) :
    ∃ x σ', σ'.requested = σ.requested ∧ ∀ c, q.serve r (σ, c) = (x, σ', c.settled) := by
  cases r with
  | call k args =>
    cases args with
    | nil => cases hr
    | cons arg args =>
      cases arg with
      | value v => cases hr
      | scope scope =>
        cases args with
        | nil =>
          exact ⟨(q.hook k [.scope scope] σ.common).1,
            { σ with common := (q.hook k [.scope scope] σ.common).2 }, rfl, fun _ => rfl⟩
        | cons _ _ => cases hr
  | emit _ => exact ⟨_, _, rfl, fun _ => rfl⟩
  | log _ => exact ⟨_, _, rfl, fun _ => rfl⟩
  | aborted => exact ⟨_, _, rfl, fun _ => rfl⟩
  | flush => exact ⟨_, _, rfl, fun _ => rfl⟩
  | _ => cases hr

/-- What comes from around the scenarios does not look at their contexts. -/
theorem agree_of_asks (hq : q.Contained) {p : SuiteRoutine (Except Fault α × List FeatureResult)}
    (hp : Program.Asks SuiteRequest.framing.asks (fun _ => False) SuiteRequest.framing.answers
      (fun r => (∀ a, r.1 = .ok a → True) ∧ ∀ e, r.1 = .error e → False) p)
    {w₁ w₂ w₁' w₂' : q.Site × q.Plot} {t₁ t₂ : Trace} {r₁ r₂ : Except Fault α × List FeatureResult}
    (hσ : w₁.1 = w₂.1) (hcalm : w₁.1.requested = false) (h₁ : q.Plays m p w₁ t₁ r₁ w₁')
    (h₂ : q.Plays n p w₂ t₂ r₂ w₂') : Agree t₁ t₂ r₁ r₂ w₁' w₂' := by
  induction hp generalizing w₁ w₂ t₁ t₂ with
  | done hr =>
    obtain ⟨rfl, rfl, rfl⟩ := plays_done_iff.1 h₁
    obtain ⟨rfl, rfl, rfl⟩ := plays_done_iff.1 h₂
    refine ⟨?_, rfl, hσ, hcalm, .refl _⟩
    cases hr₂ : r₂.1 with
    | ok a => exact ⟨a, rfl⟩
    | error e => exact (hr.2 e hr₂).elim
  | stop hr => exact hr.elim
  | @ask r next hr _ ih =>
    cases r with
    | pool _ => exact hr.elim
    | stall => exact hr.elim
    | single r =>
      obtain ⟨σ, c₁⟩ := w₁
      obtain ⟨_, c₂⟩ := w₂
      obtain rfl : σ = _ := hσ
      obtain ⟨u₁, rfl, hu₁⟩ := plays_single_iff.1 h₁
      obtain ⟨u₂, rfl, hu₂⟩ := plays_single_iff.1 h₂
      obtain ⟨x, σ', hrequested, hx⟩ := serve_of_isFrame hr σ
      have hcontained := contained_serve hq r (σ, c₁)
      rw [hx] at hu₁ hu₂ hcontained ⊢
      rw [hx]
      have hsame : ((σ', c₁.settled) : q.Site × q.Plot).1 = ((σ', c₂.settled) : q.Site × q.Plot).1 := rfl
      obtain ⟨hok, hends, hsite, hcalm', hrecords⟩ :=
        ih x hcontained hsame (hrequested.trans hcalm) hu₁ hu₂
      refine ⟨hok, hends, hsite, hcalm', ?_⟩
      rw [← List.singleton_append, ← List.singleton_append (l := u₂), Trace.records_append,
        Trace.records_append]
      exact hrecords.append_left _

/-- What makes no use of a pool does not stall. -/
theorem exists_plays_of_confined {T : Terms SuiteRequest.Answer Fault} {x : Suite.Action α}
    (hpool : ∀ jobs, ¬ T.asks (.pool jobs)) (hstall : ¬ T.asks .stall)
    (hanswers : ∀ r w, T.answers (.single r) (q.serve r w).1) (hx : Confined T x)
    (l : List FeatureResult) (w : q.Site × q.Plot) : ∃ t r w', q.Plays n (x.run.run l) w t r w' := by
  have hasks := hx l
  generalize x.run.run l = p at hasks
  induction hasks generalizing w with
  | done _ => exact ⟨_, _, _, .done _ _⟩
  | stop hr => exact hr.elim
  | @ask r next hr _ ih =>
    cases r with
    | pool jobs => exact absurd hr (hpool jobs)
    | stall => exact absurd hr hstall
    | single r =>
      obtain ⟨t, a, w', hplays⟩ := ih _ (hanswers r w) (q.serve r w).2
      exact ⟨_, a, w', .single hplays⟩

theorem alike_of_confined (hq : q.Contained) {x : Suite.Action α}
    (hx : Confined SuiteRequest.framing x) : q.Alike m n x x := by
  intro l w₁ w₂ hσ hcalm
  have hplays : ∀ (k : Nat) w, ∃ t r w', q.Plays k (x.run.run l) w t r w' :=
    fun k w => exists_plays_of_confined (fun _ => id) id (contained_serve hq) hx l w
  exact ⟨hplays m w₁, hplays n w₂, fun _ _ _ _ _ _ h₁ h₂ => agree_of_asks hq (hx l) hσ hcalm h₁ h₂⟩

end Alike

section Scenarios
variable {s : Suite} {features : List Feature} {f : Feature} {ps : List (Scenario × Nat)}
  {l : List FeatureResult} {w w' : q.Site × q.Plot} {σ : q.Site} {t : Trace}

theorem plays_job {j : Job} {r : Except Fault ScenarioResult × List FeatureResult}
    (h : q.Plays n ((Suite.Action.job j).run.run l) w t r w') :
    t = q.traceOf j w ∧ w' = (j.runWith q.serve w).2 ∧ r = ((j.runWith q.serve w).1, l) := by
  rw [Suite.run_job, plays_bind_iff] at h
  obtain ⟨u, v, o, w₁, rfl, hj, hs⟩ := h
  obtain ⟨rfl, hrun⟩ := plays_inSuite_iff.1 hj
  rw [← hrun]
  cases o with
  | ok a =>
    obtain ⟨rfl, rfl, rfl⟩ := plays_done_iff.1 hs
    exact ⟨List.append_nil _, rfl, rfl⟩
  | error e =>
    obtain ⟨rfl, rfl, rfl⟩ := plays_done_iff.1 hs
    exact ⟨List.append_nil _, rfl, rfl⟩

/-- Scenarios that are run in order come to what each of them comes to alone. -/
theorem plays_runInOrder (hq : q.Contained) (ho : s.Orderly features) (hf : f ∈ features)
    (hps : ∀ p ∈ ps, p ∈ f.numbered) {r : Except Fault (List ScenarioResult) × List FeatureResult}
    (h : q.Plays n ((s.runInOrder f ps).run.run l) w t r w') :
    w'.1 = w.1 ∧ t = (ps.map fun p => q.traceOf (s.scenarioJob f p.1 p.2) (w.1, q.fresh)).flatten ∧
      ∃ rs : List ScenarioResult, r = (.ok rs, l) ∧
        ps.map (fun p => q.solo w.1 (s.scenarioJob f p.1 p.2)) = rs.map .ok := by
  induction ps generalizing w w' t r with
  | nil =>
    obtain ⟨rfl, rfl, rfl⟩ := plays_done_iff.1 h
    exact ⟨rfl, rfl, [], rfl, rfl⟩
  | cons p ps ih =>
    obtain ⟨hp, hrest⟩ := List.forall_mem_cons.1 hps
    have hcons : s.runInOrder f (p :: ps) = (do
        let result ← Suite.Action.job (s.scenarioJob f p.1 p.2)
        return result :: (← s.runInOrder f ps)) := rfl
    rw [hcons, Suite.run_bind, plays_bind_iff] at h
    obtain ⟨u, v, _, w₁, rfl, hjob, hk⟩ := h
    obtain ⟨rfl, rfl, rfl⟩ := plays_job hjob
    obtain ⟨htrace, hsolo⟩ : Indifferent w.1 w.2 q.fresh (s.scenarioJob f p.1 p.2) :=
      indifferent_scenarioJob _ _
    have hsite : ((s.scenarioJob f p.1 p.2).runWith q.serve w).2.1 = w.1 :=
      site_runWith hq (Suite.lodged_scenarioJob ho f p.1 p.2)
    obtain ⟨result, hresult⟩ : ∃ result, q.solo w.1 (s.scenarioJob f p.1 p.2) = .ok result :=
      ok_of_solo hq ho hf (Suite.mem_of_mem_numbered hp)
    have hend : ((s.scenarioJob f p.1 p.2).runWith q.serve w).1 = .ok result := hsolo.trans hresult
    rw [hend] at hk
    dsimp only at hk
    rw [Suite.run_bind, plays_bind_iff] at hk
    obtain ⟨v, v', _, w₂, rfl, hothers, hdone⟩ := hk
    obtain ⟨hw₂, rfl, rs, rfl, hrs⟩ := ih hrest hothers
    obtain ⟨rfl, rfl, rfl⟩ := plays_done_iff.1 hdone
    rw [hsite] at hw₂ hrs ⊢
    refine ⟨hw₂, ?_, result :: rs, rfl, ?_⟩
    · rw [List.append_nil, List.map_cons, List.flatten_cons]
      exact congrArg (· ++ _) htrace
    · rw [List.map_cons, hresult, hrs, List.map_cons]

/-- The jobs of a pool end well, and leave what all scenarios see as it is. -/
theorem ends_of_steps (hq : q.Contained) (ho : s.Orderly features) (hf : f ∈ features)
    {ends : List (Except Fault ScenarioResult)} {σ' : q.Site}
    (h : q.Steps n ((s.jobs f).map .waiting) σ t (ends.map .ended) σ') :
    σ' = σ ∧ Mixed (f.numbered.map fun p => q.traceOf (s.scenarioJob f p.1 p.2) (σ, q.fresh)) t ∧
      ∃ rs : List ScenarioResult, ends.mapM id = .ok rs ∧
        f.numbered.map (fun p => q.solo σ (s.scenarioJob f p.1 p.2)) = rs.map .ok := by
  have hlodged : ∀ j ∈ s.jobs f, Lodged j :=
    List.forall_mem_map.2 fun p _ => Suite.lodged_scenarioJob ho f p.1 p.2
  obtain ⟨rfl, rfl, hmixed⟩ := solo_of_steps hq hlodged h
  rw [Suite.jobs, List.map_map] at hmixed
  have hok : ∀ p ∈ f.numbered, ∃ r, q.solo σ' (s.scenarioJob f p.1 p.2) = .ok r :=
    fun p hp => ok_of_solo hq ho hf (Suite.mem_of_mem_numbered hp)
  obtain ⟨rs, hrs⟩ := exists_oks hok
  have hsolo : (s.jobs f).map (q.solo σ') = rs.map .ok := (List.map_map ..).trans hrs
  refine ⟨rfl, hmixed, rs, ?_, hrs⟩
  rw [hsolo]
  exact mapM_eq_ok_iff.2 (List.forall₂_map_left_iff.2 (List.forall₂_same.2 fun _ _ => rfl))

/-- In a pool they come to the same, while what is seen of them is mixed. -/
theorem plays_runInPool (hq : q.Contained) (ho : s.Orderly features) (hf : f ∈ features)
    {r : Except Fault (List ScenarioResult) × List FeatureResult}
    (h : q.Plays n ((s.runInPool f).run.run l) w t r w') :
    w'.1 = w.1 ∧
      Mixed (f.numbered.map fun p => q.traceOf (s.scenarioJob f p.1 p.2) (w.1, q.fresh)) t ∧
      ∃ rs : List ScenarioResult, r = (.ok rs, l) ∧
        f.numbered.map (fun p => q.solo w.1 (s.scenarioJob f p.1 p.2)) = rs.map .ok := by
  rw [Suite.run_runInPool] at h
  obtain ⟨ends, σ, u, v, rfl, hsteps, hk⟩ := plays_pool_iff.1 h
  obtain ⟨rfl, hmixed, rs, hall, hrs⟩ := ends_of_steps hq ho hf hsteps
  rw [hall] at hk
  obtain ⟨rfl, rfl, rfl⟩ := plays_done_iff.1 hk
  rw [List.append_nil]
  exact ⟨rfl, hmixed, rs, rfl, hrs⟩

/-- A pool comes to an end. -/
theorem exists_plays_runInPool (hn : 0 < n) (hq : q.Contained) (ho : s.Orderly features)
    (hf : f ∈ features) (l : List FeatureResult) (w : q.Site × q.Plot) :
    ∃ t r w', q.Plays n ((s.runInPool f).run.run l) w t r w' := by
  have hsteps := steps_playPool hn (s.jobs f) w.1
  obtain ⟨_, _, rs, hall, _⟩ := ends_of_steps hq ho hf hsteps
  have hdone : ∀ w', q.Plays n ((Suite.Action.collect ((q.playPool (s.jobs f) w.1).2.1.mapM id)).run.run l)
      w' [] (.ok rs, l) w' := by
    intro w'
    rw [hall]
    exact .done _ _
  rw [Suite.run_runInPool]
  exact ⟨_, _, _, plays_pool_iff.2 ⟨_, _, _, _, rfl, hsteps, hdone _⟩⟩

end Scenarios
end Quarters

namespace Suite
variable {s : Suite} {features : List Feature} {f : Feature} {q : Quarters} {m n : Nat}

/-- The suite with one worker, which runs the scenarios of a feature in order. -/
def ordered (s : Suite) : Suite := { s with workers := 1 }

theorem ordered_runHooks (s : Suite) (phase : HookPhase) (scope : Scope) :
    s.ordered.runHooks phase scope = s.runHooks phase scope := by
  have hlist : ∀ hs, s.ordered.runHookList scope hs = s.runHookList scope hs := by
    intro hs
    induction hs with
    | nil => rfl
    | cons h hs ih =>
      rw [runHookList, runHookList, ih]
      rfl
  exact congrArg (Action.settle (s.registry.lookup phase scope.tags) >>= ·) (funext hlist)

theorem ordered_skipScenarios (s : Suite) (f : Feature) (ps : List (Scenario × Nat)) :
    s.ordered.skipScenarios f ps = s.skipScenarios f ps := by
  induction ps with
  | nil => rfl
  | cons p ps ih =>
    rw [skipScenarios, skipScenarios, ih]
    rfl

theorem ordered_skipFeature (s : Suite) (f : Feature) : s.ordered.skipFeature f = s.skipFeature f := by
  rw [skipFeature, skipFeature, ordered_skipScenarios]
  rfl

theorem ordered_runScenarios (s : Suite) (f : Feature) :
    s.ordered.runScenarios f = s.runInOrder f f.numbered := by
  have hlist : ∀ ps, s.ordered.runInOrder f ps = s.runInOrder f ps := by
    intro ps
    induction ps with
    | nil => rfl
    | cons p ps ih =>
      rw [runInOrder, runInOrder, ih]
      rfl
  exact hlist _

open Quarters

section Alike
variable (hq : q.Contained)
include hq

theorem alike_emit (r : Record) : q.Alike m n (s.emit r) (s.ordered.emit r) :=
  alike_of_confined hq (confined_emit SuiteRequest.framing_framing r)

/-- Hooks around the scenarios are the same, and so is what they meet. -/
theorem alike_runHooks {phase : HookPhase} {scope : Scope}
    (hl : ∃ hooks, s.registry.lookup phase scope.tags = .ok hooks) :
    q.Alike m n (s.runHooks phase scope) (s.ordered.runHooks phase scope) := by
  obtain ⟨hooks, hl⟩ := hl
  rw [ordered_runHooks]
  exact alike_of_confined hq
    (confined_runHooks SuiteRequest.framing_framing trivial fun _ he => nomatch hl.symm.trans he)

/-- Scenarios in a pool, and scenarios in order. -/
theorem alike_runScenarios (hm : 0 < m) (ho : s.Orderly features) (hf : f ∈ features)
    (hw : 1 < s.workers) : q.Alike m n (s.runScenarios f) (s.ordered.runScenarios f) := by
  intro l w₁ w₂ hσ hcalm
  rw [runScenarios, if_pos hw, ordered_runScenarios]
  refine ⟨exists_plays_runInPool hm hq ho hf l w₁, exists_plays_of_confined (fun _ => id) id
    (fun _ _ => trivial) confined_runInOrder l w₂, ?_⟩
  intro t₁ t₂ r₁ r₂ w₁' w₂' h₁ h₂
  obtain ⟨hw₁, hmixed, rs₁, rfl, hrs₁⟩ := plays_runInPool hq ho hf h₁
  obtain ⟨hw₂, htrace, rs₂, rfl, hrs₂⟩ := plays_runInOrder hq ho hf (fun _ => id) h₂
  rw [← hσ] at hw₂ htrace hrs₂
  have hrs : rs₁ = rs₂ := by
    refine List.map_injective_iff.2 (fun _ _ => Except.ok.inj) (hrs₁.symm.trans hrs₂)
  refine ⟨⟨rs₁, rfl⟩, by rw [hrs], hw₁.trans hw₂.symm, by rw [hw₁, hcalm], ?_⟩
  rw [htrace]
  exact (hmixed.perm_flatten.filterMap _).map _

theorem alike_runFeature (hm : 0 < m) (ho : s.Orderly features) (hf : f ∈ features)
    (hw : 1 < s.workers) : q.Alike m n (s.runFeature f) (s.ordered.runFeature f) := by
  have hhooks : ∀ phase shown, q.Alike m n (s.runHooks phase (.feature f shown))
      (s.ordered.runHooks phase (.feature f shown)) :=
    fun phase _ => alike_runHooks hq (ho.feature f hf phase)
  rw [runFeature_eq, runFeature_eq]
  refine alike_bind (hhooks _ _) fun hooks => alike_bind ?_ fun rs => ?_
  · split
    · exact alike_runScenarios hq hm ho hf hw
    · rw [ordered_skipScenarios]
      exact alike_of_confined hq (confined_skipScenarios SuiteRequest.framing_framing)
  · refine alike_bind (hhooks _ _) fun after => alike_bind (alike_emit hq _) fun _ => ?_
    exact alike_pure _

theorem alike_runFeatures {ready : Bool} {fs : List Feature} (hm : 0 < m) (ho : s.Orderly features)
    (hfs : ∀ f ∈ fs, f ∈ features) (hw : 1 < s.workers) :
    q.Alike m n (s.runFeatures ready fs) (s.ordered.runFeatures ready fs) := by
  induction fs with
  | nil => exact alike_pure _
  | cons f fs ih =>
    obtain ⟨hf, hrest⟩ := List.forall_mem_cons.1 hfs
    rw [runFeatures_cons, runFeatures_cons]
    refine alike_bind ?_ fun skipped => alike_bind ?_ fun r => alike_modify_bind (ih hrest)
    · split
      · exact alike_of_confined hq (confined_perform rfl)
      · exact alike_pure _
    · split
      · rw [ordered_skipFeature]
        exact alike_of_confined hq (confined_skipFeature SuiteRequest.framing_framing)
      · exact alike_runFeature hq hm ho hf hw

omit hq in
/-- A log takes whatever it is told. -/
theorem alike_log {level : LogLevel} {message : String} {fields fields' : List (String × Datum)} :
    q.Alike m n (s.log level message fields) (s.ordered.log level message fields') := by
  intro l w₁ w₂ hσ hcalm
  have hplays : ∀ (s : Suite) (fields : List (String × Datum)) (k : Nat) w,
      ∃ t r w', q.Plays k ((s.log level message fields).run.run l) w t r w' :=
    fun _ _ _ w => exists_plays_of_confined (fun _ => id) id (fun _ _ => trivial)
      (confined_log SuiteRequest.framing_unpooled) l w
  refine ⟨hplays _ _ _ _, hplays _ _ _ _, ?_⟩
  intro t₁ t₂ r₁ r₂ w₁' w₂' h₁ h₂
  have hrun : ∀ m : LogMessage, (Action.perform (.log m) >>= Action.proceed).run.run l =
      .ask (.single (.log m)) fun x => (Action.proceed x).run.run l := fun _ => rfl
  unfold log at h₁ h₂
  cases hpasses : s.logger.passes level with
  | true =>
    have hordered : s.ordered.logger.passes level = true := hpasses
    rw [if_pos hpasses, hrun] at h₁
    rw [if_pos hordered, hrun] at h₂
    obtain ⟨u₁, rfl, hdone₁⟩ := plays_single_iff.1 h₁
    obtain ⟨u₂, rfl, hdone₂⟩ := plays_single_iff.1 h₂
    obtain ⟨rfl, rfl, rfl⟩ := plays_done_iff.1 hdone₁
    obtain ⟨rfl, rfl, rfl⟩ := plays_done_iff.1 hdone₂
    exact ⟨⟨(), rfl⟩, rfl, hσ, hcalm, .refl _⟩
  | false =>
    have hordered : s.ordered.logger.passes level = false := hpasses
    simp only [hpasses, hordered, Bool.false_eq_true, if_false] at h₁ h₂
    exact (alike_pure () hσ hcalm).agree h₁ h₂

theorem alike_suiteHooks {phase : HookPhase} {shown : Option SuiteResult} :
    q.Alike m n (s.runHooks phase (.suite features shown))
      (s.ordered.runHooks phase (.suite features shown)) :=
  alike_runHooks hq ⟨_, Registry.lookup_untagged⟩

theorem alike_conduct (hm : 0 < m) (ho : s.Orderly features) (hw : 1 < s.workers) :
    q.Alike m n (s.conduct features) (s.ordered.conduct features) := by
  have hresult : ∀ hooks, q.Alike m n (s.result hooks) (s.ordered.result hooks) :=
    fun _ => alike_of_confined hq (confined_result SuiteRequest.framing_framing)
  have hfinish : ∀ r, q.Alike m n (s.finish r) (s.ordered.finish r) := fun _ =>
    alike_of_confined hq (confined_finish SuiteRequest.framing_framing rfl fun _ hf => nomatch hf)
  have hrecover : ∀ a, s.recover features (.ok a) = pure (.ok ()) := fun _ => rfl
  have hrecover' : ∀ a, s.ordered.recover features (.ok a) = pure (.ok ()) := fun _ => rfl
  refine alike_bind alike_log fun _ => alike_bind (alike_suiteHooks hq) fun hooks => ?_
  refine alike_observe_bind (alike_runFeatures hq hm ho (fun _ => id) hw) fun _ => ?_
  rw [hrecover, hrecover', pure_bind, pure_bind]
  refine alike_bind (hresult _) fun _ => alike_bind (alike_suiteHooks hq) fun after => ?_
  exact alike_bind (alike_pure _) fun _ => alike_bind (hresult _) fun r => hfinish r

omit hq in
/-- Whoever requested an abort before, no one does any more. -/
theorem meet_reset {l : List FeatureResult} {w₁ w₂ : q.Site × q.Plot} (hσ : w₁.1 = w₂.1) :
    q.Meet m n l w₁ w₂ (Action.perform .resetAbort) (Action.perform .resetAbort) := by
  refine ⟨⟨_, _, _, .single (.done _ _)⟩, ⟨_, _, _, .single (.done _ _)⟩, ?_⟩
  intro t₁ t₂ r₁ r₂ w₁' w₂' h₁ h₂
  obtain ⟨u₁, rfl, hdone₁⟩ := plays_single_iff.1 h₁
  obtain ⟨u₂, rfl, hdone₂⟩ := plays_single_iff.1 h₂
  obtain ⟨rfl, rfl, rfl⟩ := plays_done_iff.1 hdone₁
  obtain ⟨rfl, rfl, rfl⟩ := plays_done_iff.1 hdone₂
  refine ⟨⟨(), rfl⟩, rfl, ?_, rfl, .refl _⟩
  exact congrArg (fun σ : q.Site => { σ with requested := false }) hσ

theorem meet_runAll (hm : 0 < m) (ho : s.Orderly features) (hw : 1 < s.workers)
    {l : List FeatureResult} (w : q.Site × q.Plot) : q.Meet m n l w w (s.runAll features) (s.ordered.runAll features) := by
  rw [runAll_eq, runAll_eq]
  exact (meet_reset rfl).bind fun _ => alike_conduct hq hm ho hw

end Alike

theorem plays_run_iff {t : Trace} {o : Except Fault SuiteResult} {w w' : q.Site × q.Plot} :
    q.Plays n (s.run features) w t o w' ↔
      ∃ l, q.Plays n ((s.runAll features).run.run []) w t (o, l) w' := by
  rw [run, plays_bind_iff]
  constructor
  · rintro ⟨u, v, ⟨o', l⟩, w₁, rfl, hall, hdone⟩
    obtain ⟨rfl, rfl, rfl⟩ := plays_done_iff.1 hdone
    rw [List.append_nil]
    exact ⟨l, hall⟩
  · rintro ⟨l, hall⟩
    exact ⟨t, [], (o, l), w', (List.append_nil t).symm, hall, .done _ _⟩

end Suite

namespace Sample

/-- Quarters in which the contexts of a scenario count what is called on them, and each call ends as its
number tells. -/
def quarters (outcome : Nat → Option Fault) : Quarters where
  Common := Unit
  Contexts := Nat
  vacant := 0
  build _ _ n := (.ok ⟨.null, []⟩, n)
  attach _ n := n
  act _ _ _ n := (outcome n, n + 1)
  hook _ _ _ := (none, ())

theorem quarters_raises {outcome : Nat → Option Fault} {P : Fault → Prop}
    (h : ∀ n f, outcome n = some f → P f) : (quarters outcome).Raises P where
  build _ _ _ _ hf := nomatch hf
  act _ _ _ n f hf := h n f hf
  hook _ _ _ _ hf := nomatch hf

end Sample

namespace Suite
open Quarters
variable {s : Suite} {features : List Feature} {q : Quarters}

/-- Where scenarios have quarters of their own, no one is interrupted, exits or requests an abort, and tags
and coercers are orderly, a suite that runs scenarios in a pool comes to a result, in whatever order they are
picked up, go on and end; it is the result of the suite that runs them in order, and the same records are
handed over. -/
theorem same_result_in_pool (hq : q.Contained) (ho : s.Orderly features) (hw : 1 < s.workers)
    (w : q.Site × q.Plot) :
    (∃ t o w', q.Plays s.workers (s.run features) w t o w') ∧
      (∃ t o w', q.Plays 1 (s.ordered.run features) w t o w') ∧
      ∀ ⦃t t' : Trace⦄ ⦃o o' : Except Fault SuiteResult⦄ ⦃w₁ w₂ : q.Site × q.Plot⦄,
        q.Plays s.workers (s.run features) w t o w₁ →
        q.Plays 1 (s.ordered.run features) w t' o' w₂ →
        (∃ r, o = .ok r) ∧ o' = o ∧ t'.records.Perm t.records := by
  have hmeet : q.Meet s.workers 1 [] w w (s.runAll features) (s.ordered.runAll features) :=
    meet_runAll hq (Nat.lt_of_succ_lt hw) ho hw w
  obtain ⟨t, ⟨o, l⟩, w₁, hleft⟩ := hmeet.left
  obtain ⟨t', ⟨o', l'⟩, w₂, hright⟩ := hmeet.right
  refine ⟨⟨t, o, w₁, plays_run_iff.2 ⟨l, hleft⟩⟩, ⟨t', o', w₂, plays_run_iff.2 ⟨l', hright⟩⟩, ?_⟩
  intro t t' o o' w₁ w₂ hpool horder
  obtain ⟨l, hpool⟩ := plays_run_iff.1 hpool
  obtain ⟨l', horder⟩ := plays_run_iff.1 horder
  have hagree := hmeet.agree hpool horder
  obtain ⟨rfl, rfl⟩ := Prod.mk.inj hagree.ends
  exact ⟨hagree.ok, rfl, hagree.records.symm⟩

/-- Two scenarios of one feature may overlap here; in each of them the second call fails. -/
theorem same_result_in_pool_sample :
    let s := Sample.suite [Sample.hook .beforeStep 1 "knock", Sample.hook .afterScenario 2 "tidy"] 2 false
    let q := Sample.quarters fun n => if n = 1 then some (.ofKind "ValueError" "locked") else none
    let features := [Sample.doubled "bookings", Sample.feature "payments"]
    let w : q.Site × q.Plot := (⟨true, ()⟩, q.fresh)
    q.Contained ∧ s.Orderly features ∧ 1 < s.workers ∧
      ∃ (t t' : Trace) (r : SuiteResult) (w₁ w₂ : q.Site × q.Plot),
        q.Plays s.workers (s.run features) w t (.ok r) w₁ ∧
          q.Plays 1 (s.ordered.run features) w t' (.ok r) w₂ ∧ t'.records.Perm t.records := by
  intro s q features w
  have hq : q.Contained := by
    refine Sample.quarters_raises fun n f hf => ?_
    split at hf <;> cases hf
    rfl
  have ho : s.Orderly features := Sample.suite_orderly (by decide)
  have hw : 1 < s.workers := Nat.lt_succ_self 1
  obtain ⟨⟨t, o, w₁, hpool⟩, ⟨t', o', w₂, horder⟩, hsame⟩ := same_result_in_pool hq ho hw w
  obtain ⟨⟨r, rfl⟩, rfl, hrecords⟩ := hsame hpool horder
  exact ⟨hq, ho, hw, t, t', r, w₁, w₂, hpool, horder, hrecords⟩

/-- An exit keeps the scenarios after it from being run in order, and not those beside it in a pool. -/
theorem not_same_records_of_exit :
    let s := Sample.suite [Sample.hook .beforeScenario 1 "unlock"] 2 false
    let q := Sample.quarters fun _ => some (.ofKind "GeneratorExit" "")
    let features := [Sample.doubled "bookings"]
    let w : q.Site × q.Plot := (⟨false, ()⟩, q.fresh)
    (q.Raises fun f => f.kind ≠ "KeyboardInterrupt" ∧ f.kind ≠ "SystemExit") ∧ s.Orderly features ∧
      1 < s.workers ∧ ∃ (t t' : Trace) (o o' : Except Fault SuiteResult) (w₁ w₂ : q.Site × q.Plot),
        q.Plays s.workers (s.run features) w t o w₁ ∧ q.Plays 1 (s.ordered.run features) w t' o' w₂ ∧
          ¬ t'.records.Perm t.records := by
  intro s q features w
  have hw : 1 < s.workers := Nat.lt_succ_self 1
  have hlength : (q.play (s.ordered.run features) w).1.records.length ≠
      (q.play (s.run features) w).1.records.length := by decide +kernel
  obtain ⟨⟨o, w₁⟩, hpool⟩ : ∃ p, (q.play (s.run features) w).2 = some p :=
    Option.isSome_iff_exists.1 (by decide +kernel)
  obtain ⟨⟨o', w₂⟩, horder⟩ : ∃ p, (q.play (s.ordered.run features) w).2 = some p :=
    Option.isSome_iff_exists.1 (by decide +kernel)
  refine ⟨Sample.quarters_raises fun n f hf => ?_, Sample.suite_orderly (by decide), hw, _, _, o, o', w₁, w₂,
    plays_play (Nat.lt_of_succ_lt hw) hpool, plays_play Nat.one_pos horder, fun h => hlength h.length_eq⟩
  cases hf
  decide

end Suite
end Rehearsal
