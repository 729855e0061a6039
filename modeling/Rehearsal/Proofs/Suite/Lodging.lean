import Rehearsal.Proofs.Suite.Quarters
import Rehearsal.Proofs.Suite.Requests

/-! Scenarios in quarters of their own. What a scenario asks for leaves everything else as it is, so that it
makes no difference to it who else is there, nor who was there before: in a pool each job comes to what it
comes to alone, and what is seen of the pool is what is seen of the jobs, each in its own order. -/

namespace Rehearsal
set_option autoImplicit false

namespace Request

/-- Does a request concern one scenario only? -/
def isLocal : Request → Bool
  | .emit _ | .log _ | .tie .. | .aborted | .construct .. | .attach _ | .call _ (.value _ :: _) => true
  | _ => false

/-- Is nobody called? -/
def isTalk : Request → Bool
  | .emit _ | .log _ | .aborted => true
  | _ => false

/-- Nothing is raised but by callables and factories, and that is neither an interrupt nor an exit. -/
def Contained : (r : Request) → r.Answer → Prop
  | .emit _, f | .log _, f | .tie .., f | .flush, f => f = none
  | .call .., f => ∀ e, f = some e → Composition.escapes e = false
  | .construct .., r => ∀ e, r = .error e → Composition.escapes e = false
  | _, _ => True

def lodged : Terms Request.Answer Fault :=
  ⟨fun r => r.isLocal = true, Contained, fun f => f.family ≠ .interrupt⟩

theorem family_of_contained {f : Fault} (h : Composition.escapes f = false) :
    f.family ≠ .interrupt ∧ f.family ≠ .exit := by
  constructor <;> intro hf <;> simp [Composition.escapes, hf] at h

theorem entire_lodged : Entire lodged where
  emit _ := rfl
  log _ := rfl
  refused _ _ hf := nomatch hf
  unlogged _ _ hf := nomatch hf
  call _ _ _ := rfl
  aborted := rfl
  tie _ _ := rfl
  interrupted _ _ f hf hi _ := absurd hi (family_of_contained (hf f rfl)).1
  recovered _ hf hi _ := absurd hi hf
  exited _ _ f hf he := absurd he (family_of_contained (hf f rfl)).2
  untied _ _ _ hf := nomatch hf
  ordinary _ hf he := nomatch hf.symm.trans he
  construct _ _ := rfl
  attach _ := rfl
  contained _ _ f hf := hf f rfl

def talking : Terms Request.Answer Fault := .asking fun r => r.isTalk = true

theorem spoken_talking : Spoken talking where
  emit _ := rfl
  log _ := rfl
  refused _ _ _ := trivial
  unlogged _ _ _ := trivial

end Request

/-- A job asks for nothing that concerns anyone else. -/
def Lodged (j : Job) : Prop :=
  Program.Asks Request.lodged.asks (fun _ => False) Request.lodged.answers (fun _ => True) j

theorem Suite.lodged_scenarioJob {s : Suite} {features : List Feature} (ho : s.Orderly features)
    (f : Feature) (c : Scenario) (index : Nat) : Lodged (s.scenarioJob f c index) :=
  Suite.asks_scenarioJob Request.entire_lodged fun _ _ _ hf =>
    .inl (Matcher.isMatchFailure_of_matchText ho.reports hf)

theorem Moment.tame_of_contained {m : Moment Request.Answer Bool} (h : m.request.Contained m.answer) :
    m.tame = true := by
  rcases m with ⟨r, x, b⟩
  cases r with
  | call k args =>
    refine (tame_call k args x b).trans (Option.all_eq_true _ _ |>.2 fun f hf => ?_)
    exact bne_iff_ne.2 (Request.family_of_contained (h f hf)).2
  | construct k params =>
    change Except Fault Instance at x
    cases x with
    | ok _ => rfl
    | error f => simp [tame, h f rfl]
  | log _ =>
    cases h
    rfl
  | tie _ _ =>
    cases h
    rfl
  | _ => rfl

namespace Trace
variable {t : Trace}

theorem tame_of_contained (h : ∀ m ∈ t, m.request.Contained m.answer) : t.tame = true :=
  List.all_eq_true.2 fun m hm => Moment.tame_of_contained (h m hm)

theorem not_refused_of_contained (h : ∀ m ∈ t, m.request.Contained m.answer) {r : Record} {f : Fault} :
    (r, some f) ∉ t.handed := by
  intro hr
  obtain ⟨⟨q, x, b⟩, hm, hhanded⟩ := List.mem_filterMap.1 hr
  cases q with
  | emit _ =>
    have hx : x = none := h _ hm
    cases hx
    cases hhanded
  | _ => cases hhanded

end Trace

/-- A list made of several others, each in its own order. -/
inductive Mixed {α : Type} : List (List α) → List α → Prop where
  | nil : Mixed [] []
  | cons {xs zs ws : List α} {xss : List (List α)} : Mixed xss zs → Shuffle xs zs ws →
      Mixed (xs :: xss) ws

namespace Mixed
variable {α : Type} {xss yss : List (List α)} {xs zs : List α}

theorem cons_at (x : α) (h : Mixed (xss ++ xs :: yss) zs) :
    Mixed (xss ++ (x :: xs) :: yss) (x :: zs) := by
  induction xss generalizing zs with
  | nil =>
    cases h with
    | cons hrest hmix => exact .cons hrest (.left x hmix)
  | cons ys xss ih =>
    cases h with
    | cons hrest hmix => exact .cons (ih hrest) (.right x hmix)

theorem of_nils (h : ∀ ys ∈ xss, ys = []) : Mixed xss [] := by
  induction xss with
  | nil => exact .nil
  | cons ys xss ih =>
    obtain ⟨rfl, hrest⟩ := List.forall_mem_cons.1 h
    exact .cons (ih hrest) .nil

theorem perm_flatten (h : Mixed xss zs) : zs.Perm xss.flatten := by
  induction h with
  | nil => exact .nil
  | cons _ hmix ih => exact hmix.perm.trans (ih.append_left _)

end Mixed

namespace Quarters
variable {q : Quarters} {workers : Nat} {w : q.Site × q.Plot} {σ σ' : q.Site} {t : Trace}
  {lanes lanes' : List q.Lane}

theorem contained_serve (hq : q.Contained) (r : Request) (w : q.Site × q.Plot) :
    r.Contained (q.serve r w).1 := by
  rcases w with ⟨σ, c⟩
  cases r with
  | call k args =>
    intro e he
    cases args with
    | nil => exact hq.hook _ _ _ e he
    | cons arg args =>
      cases arg with
      | value v => exact hq.act _ _ _ _ e he
      | scope scope => exact hq.hook _ _ _ e he
  | construct k params => exact fun e he => hq.build _ _ _ e he
  | emit _ => exact rfl
  | log _ => exact rfl
  | tie _ _ => exact rfl
  | flush => exact rfl
  | _ => exact trivial

theorem site_serve {r : Request} (hr : r.isLocal = true) : (q.serve r w).2.1 = w.1 := by
  rcases w with ⟨σ, c⟩
  cases r with
  | call k args =>
    cases args with
    | nil => cases hr
    | cons arg args =>
      cases arg with
      | value v => rfl
      | scope scope => cases hr
  | abort _ => cases hr
  | resetAbort => cases hr
  | flush => cases hr
  | _ => rfl

section Contained
variable (hq : q.Contained)
include hq

/-- A job leaves what all scenarios see as it is. -/
theorem site_runWith {j : Job} (hj : Lodged j) : (j.runWith q.serve w).2.1 = w.1 := by
  induction hj generalizing w with
  | done _ => rfl
  | stop hr => exact hr.elim
  | ask hr _ ih => exact (ih _ (contained_serve hq _ _)).trans (site_serve hr)

theorem contained_traceOf {α : Type} (p : Routine α) (w : q.Site × q.Plot) :
    ∀ m ∈ q.traceOf p w, m.request.Contained m.answer := by
  induction p generalizing w with
  | done _ => exact List.forall_mem_nil _
  | ask r next ih => exact List.forall_mem_cons.2 ⟨contained_serve hq r w, ih _ _⟩

end Contained

section Pool

/-- What comes of a job, as far as it is left. -/
def Lane.outcome (σ : q.Site) : q.Lane → Except Fault ScenarioResult
  | waiting j => (j.runWith q.serve (σ, q.fresh)).1
  | working p c => (p.runWith q.serve (σ, c)).1
  | ended o => o

/-- What is still to be seen of a job. -/
def Lane.rest (σ : q.Site) : q.Lane → Trace
  | waiting j => q.traceOf j (σ, q.fresh)
  | working p c => q.traceOf p (σ, c)
  | ended _ => []

/-- What a job comes to when it is alone. -/
def solo (q : Quarters) (σ : q.Site) (j : Job) : Except Fault ScenarioResult :=
  (j.runWith q.serve (σ, q.fresh)).1

variable (hq : q.Contained)
include hq

/-- What one step of a pool leaves as it is: what is common, and what comes of every job. -/
theorem kept_of_step (h : q.Step workers lanes σ t lanes' σ') (hl : ∀ ℓ ∈ lanes, Lodged ℓ.left) :
    σ' = σ ∧ (∀ ℓ ∈ lanes', Lodged ℓ.left) ∧
      lanes'.map (Lane.outcome σ) = lanes.map (Lane.outcome σ) ∧
      ∀ u, Mixed (lanes'.map (Lane.rest σ)) u → Mixed (lanes.map (Lane.rest σ)) (t ++ u) := by
  cases h with
  | pick before after j _ _ =>
    simp only [List.forall_mem_append, List.forall_mem_cons, List.map_append, List.map_cons] at hl ⊢
    exact ⟨trivial, hl, rfl, fun _ => id⟩
  | move before after r next _ c =>
    simp only [List.forall_mem_append, List.forall_mem_cons, List.map_append, List.map_cons] at hl ⊢
    obtain ⟨hbefore, hj, hafter⟩ := hl
    cases hj with
    | stop hr => exact hr.elim
    | ask hr hnext =>
      have hσ : (q.serve r (σ, c)).2.1 = σ := site_serve hr
      have hw : (q.serve r (σ, c)).2 = (σ, (q.serve r (σ, c)).2.2) := Prod.ext hσ rfl
      have houtcome : Lane.outcome σ (.working (.ask r next) c) =
          Lane.outcome σ (.working (next (q.serve r (σ, c)).1) (q.serve r (σ, c)).2.2) :=
        congrArg (fun w => ((next (q.serve r (σ, c)).1).runWith q.serve w).1) hw
      have hrest : Lane.rest σ (.working (.ask r next) c) =
          ⟨r, (q.serve r (σ, c)).1, (q.serve r (σ, c)).2.1.requested⟩ ::
            Lane.rest σ (.working (next (q.serve r (σ, c)).1) (q.serve r (σ, c)).2.2) :=
        congrArg (fun w => _ :: q.traceOf (next (q.serve r (σ, c)).1) w) hw
      refine ⟨hσ, ⟨hbefore, hnext _ (contained_serve hq _ _), hafter⟩, by rw [houtcome], fun u hu => ?_⟩
      rw [hrest]
      exact hu.cons_at _
  | finish before after o _ c =>
    simp only [List.forall_mem_append, List.forall_mem_cons, List.map_append, List.map_cons] at hl ⊢
    exact ⟨trivial, hl, rfl, fun _ => id⟩

/-- Many steps of a pool leave as they are what each of them does. -/
theorem kept_of_steps (h : q.Steps workers lanes σ t lanes' σ') (hl : ∀ ℓ ∈ lanes, Lodged ℓ.left) :
    σ' = σ ∧ lanes'.map (Lane.outcome σ) = lanes.map (Lane.outcome σ) ∧
      ∀ u, Mixed (lanes'.map (Lane.rest σ)) u → Mixed (lanes.map (Lane.rest σ)) (t ++ u) := by
  induction h with
  | refl => exact ⟨rfl, rfl, fun _ => id⟩
  | step hs _ ih =>
    obtain ⟨rfl, hl₁, houtcome, hmixed⟩ := kept_of_step hq hs hl
    obtain ⟨rfl, houtcome₁, hmixed₁⟩ := ih hl₁
    refine ⟨rfl, houtcome₁.trans houtcome, fun u hu => ?_⟩
    rw [List.append_assoc]
    exact hmixed _ (hmixed₁ u hu)

/-- In a pool each job comes to what it comes to alone, whichever is picked up, goes on or ends first. -/
theorem solo_of_steps {jobs : List Job} {ends : List (Except Fault ScenarioResult)}
    (hj : ∀ j ∈ jobs, Lodged j) (h : q.Steps workers (jobs.map .waiting) σ t (ends.map .ended) σ') :
    σ' = σ ∧ ends = jobs.map (q.solo σ) ∧ Mixed (jobs.map fun j => q.traceOf j (σ, q.fresh)) t := by
  have hl : ∀ ℓ ∈ (jobs.map .waiting : List q.Lane), Lodged ℓ.left := List.forall_mem_map.2 hj
  obtain ⟨rfl, houtcome, hmixed⟩ := kept_of_steps hq h hl
  rw [List.map_map, List.map_map] at houtcome
  have hends : ends.map (Lane.outcome σ' ∘ Lane.ended) = ends := List.map_id _
  have hended : ∀ ys ∈ (ends.map .ended : List q.Lane).map (Lane.rest σ'), ys = [] :=
    List.forall_mem_map.2 (List.forall_mem_map.2 fun _ _ => rfl)
  have hall := hmixed [] (.of_nils hended)
  rw [List.append_nil, List.map_map] at hall
  exact ⟨rfl, hends.symm.trans houtcome, hall⟩

end Pool

section Newcomer
variable {s : Suite} {features : List Feature} {f : Feature} {c : Scenario} {index : Nat}

/-- Who only talks does not look at the contexts. -/
theorem serve_of_isTalk {r : Request} (hr : r.isTalk = true) (σ : q.Site) :
    ∃ x, ∀ c, q.serve r (σ, c) = (x, σ, c.settled) := by
  cases r with
  | emit _ => exact ⟨_, fun _ => rfl⟩
  | log _ => exact ⟨_, fun _ => rfl⟩
  | aborted => exact ⟨_, fun _ => rfl⟩
  | _ => cases hr

/-- Two plots make no difference to a routine. -/
def Indifferent (σ : q.Site) (c₁ c₂ : q.Plot) (p : Job) : Prop :=
  q.traceOf p (σ, c₁) = q.traceOf p (σ, c₂) ∧
    (p.runWith q.serve (σ, c₁)).1 = (p.runWith q.serve (σ, c₂)).1

theorem indifferent_ask {r : Request} {next : r.Answer → Job} {c₁ c₂ : q.Plot} (hr : r.isTalk = true)
    (hnext : ∀ x, Indifferent σ c₁.settled c₂.settled (next x)) :
    Indifferent σ c₁ c₂ (.ask r next) := by
  obtain ⟨x, hx⟩ := serve_of_isTalk hr σ
  obtain ⟨htrace, hresult⟩ := hnext x
  simp only [traceOf] at htrace
  simp only [Indifferent, traceOf, Program.record, Program.runWith, hx, htrace, hresult, and_self]

/-- What is left of another scenario is not seen by one that has yet to build its contexts. -/
theorem indifferent_of_talking {p : Job} {c₁ c₂ : q.Plot}
    (hp : Program.Asks Request.talking.asks (fun r => r.builds = true) Request.talking.answers
      (fun _ => True) p) (h₁ : c₁.building = false) (h₂ : c₂.building = false) :
    Indifferent σ c₁ c₂ p := by
  induction hp generalizing c₁ c₂ with
  | done _ => exact ⟨rfl, rfl⟩
  | @stop r next hr =>
    cases r with
    | construct k params =>
      have hserve : q.serve (.construct k params) (σ, c₁) = q.serve (.construct k params) (σ, c₂) := by
        simp [serve, h₁, h₂]
      simp only [Indifferent, traceOf, Program.record, Program.runWith, hserve, and_self]
    | _ => cases hr
  | ask hr _ ih => exact indifferent_ask hr fun x => ih x trivial rfl rfl

/-- A scenario of a suite comes to the same whoever was there before. -/
theorem indifferent_scenarioJob (c₁ c₂ : q.Plot) :
    Indifferent σ c₁ c₂ (s.scenarioJob f c index) := by
  have hasks : Program.Asks Request.talking.asks (fun r => r.builds = true) Request.talking.answers
      (fun _ => True) (s.scenarioJob f c index) :=
    Suite.asks_scenarioJob_unbuilt Request.spoken_talking rfl fun _ => trivial
  cases hasks with
  | stop hr => cases hr
  | ask _ hnext => exact indifferent_ask rfl fun x => indifferent_of_talking (hnext x trivial) rfl rfl

/-- A scenario of a suite ends with a result. -/
theorem ok_of_solo (hq : q.Contained) (ho : s.Orderly features) (hf : f ∈ features)
    (hc : c ∈ f.scenarios) : ∃ r, q.solo σ (s.scenarioJob f c index) = .ok r := by
  have hruns := Program.runs_record q.serve (·.1.requested) (s.scenarioJob f c index) (σ, q.fresh)
  have hcontained := contained_traceOf hq (s.scenarioJob f c index) (σ, q.fresh)
  unfold solo
  cases hsolo : ((s.scenarioJob f c index).runWith q.serve (σ, q.fresh)).1 with
  | ok r => exact ⟨r, rfl⟩
  | error g =>
    rw [hsolo] at hruns
    obtain ⟨r, hr⟩ := Suite.raised_scenarioJob hruns ho hf hc (Trace.tame_of_contained hcontained)
    exact absurd hr (Trace.not_refused_of_contained hcontained)

end Newcomer
end Quarters
end Rehearsal
