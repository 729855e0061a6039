import Rehearsal.Proofs.Suite.Trace

/-! Surroundings in which every scenario has quarters of its own. What is called on a context reads and
changes the contexts of its scenario and nothing else; what hooks of a suite or a feature have in common is
out of its reach. No one who is called requests an abort, and the sink, the log and who is told of ties take
what they are given. In a pool scenarios are picked up, go on and come to their ends in any order, no more of
them at a time than there are workers. -/

namespace Rehearsal
set_option autoImplicit false

structure Quarters where
  /-- What hooks of suites and features read and change. -/
  Common : Type
  /-- The contexts of a scenario, as they are at some time. -/
  Contexts : Type
  /-- There are none yet. -/
  vacant : Contexts
  build : Factory → List (String × Value) → Contexts → Except Fault Instance × Contexts
  attach : Arena → Contexts → Contexts
  act : Callable → Value → List Argument → Contexts → Option Fault × Contexts
  hook : Callable → List Argument → Common → Option Fault × Common

namespace Quarters

/-- Whoever is called, or builds a context, raises nothing but what is told. -/
structure Raises (q : Quarters) (P : Fault → Prop) : Prop where
  build : ∀ k params c f, (q.build k params c).1 = .error f → P f
  act : ∀ k v args c f, (q.act k v args c).1 = some f → P f
  hook : ∀ k args c f, (q.hook k args c).1 = some f → P f

/-- Whoever is called is not interrupted, and does not exit. -/
def Contained (q : Quarters) : Prop := q.Raises fun f => Composition.escapes f = false

/-- What all scenarios see: the signal, and what is common to the hooks around them. -/
structure Site (q : Quarters) where
  requested : Bool
  common : q.Common

/-- What one scenario has of its own: its contexts, and whether they are still being built. -/
structure Plot (q : Quarters) where
  contexts : q.Contexts
  building : Bool

variable (q : Quarters)

def fresh : q.Plot := ⟨q.vacant, false⟩

variable {q} in
def Plot.settled (c : q.Plot) : q.Plot := { c with building := false }

/-- Factories that are called one right after the other build the contexts of one scenario; whoever is
called after anything else begins anew. -/
def serve : (r : Request) → q.Site × q.Plot → r.Answer × (q.Site × q.Plot)
  | .emit _, (σ, c) => (none, σ, c.settled)
  | .log _, (σ, c) => (none, σ, c.settled)
  | .tie .., (σ, c) => (none, σ, c.settled)
  | .flush, (σ, c) => (none, σ, c.settled)
  | .aborted, (σ, c) => (σ.requested, σ, c.settled)
  | .abort _, (σ, c) => ((), { σ with requested := true }, c.settled)
  | .resetAbort, (σ, c) => ((), { σ with requested := false }, c.settled)
  | .construct k params, (σ, c) =>
    let (r, contexts) := q.build k params (if c.building then c.contexts else q.vacant)
    (r, σ, ⟨contexts, true⟩)
  | .attach a, (σ, c) => ((), σ, ⟨q.attach a c.contexts, false⟩)
  | .call k (.value v :: args), (σ, c) =>
    let (f, contexts) := q.act k v args c.contexts
    (f, σ, ⟨contexts, false⟩)
  | .call k args, (σ, c) =>
    let (f, common) := q.hook k args σ.common
    (f, { σ with common := common }, c.settled)

/-- What is seen of a routine that is served from here on. -/
def traceOf {α : Type} (p : Routine α) (w : q.Site × q.Plot) : Trace :=
  p.record q.serve (·.1.requested) w

/-- A job of a pool: it is not picked up yet, some worker is at it, or it has come to its end. -/
inductive Lane where
  | waiting (j : Job)
  | working (p : Job) (c : q.Plot)
  | ended (o : Except Fault ScenarioResult)

variable {q} in
def Lane.busy : q.Lane → Bool
  | working .. => true
  | _ => false

/-- One step of a pool: a worker that is free picks up any job that waits, any worker goes on with its job
by one request, or is done with it. -/
inductive Step (workers : Nat) : List q.Lane → q.Site → Trace → List q.Lane → q.Site → Prop where
  | pick (before after : List q.Lane) (j : Job) (σ : q.Site) :
      (before ++ .waiting j :: after).countP Lane.busy < workers →
      Step workers (before ++ .waiting j :: after) σ [] (before ++ .working j q.fresh :: after) σ
  | move (before after : List q.Lane) (r : Request) (next : r.Answer → Job) (σ : q.Site) (c : q.Plot) :
      Step workers (before ++ .working (.ask r next) c :: after) σ
        [⟨r, (q.serve r (σ, c)).1, (q.serve r (σ, c)).2.1.requested⟩]
        (before ++ .working (next (q.serve r (σ, c)).1) (q.serve r (σ, c)).2.2 :: after)
        (q.serve r (σ, c)).2.1
  | finish (before after : List q.Lane) (o : Except Fault ScenarioResult) (σ : q.Site) (c : q.Plot) :
      Step workers (before ++ .working (.done o) c :: after) σ [] (before ++ .ended o :: after) σ

/-- Steps of a pool, one after the other. -/
inductive Steps (workers : Nat) : List q.Lane → q.Site → Trace → List q.Lane → q.Site → Prop where
  | refl (lanes : List q.Lane) (σ : q.Site) : Steps workers lanes σ [] lanes σ
  | step {lanes lanes₁ lanes₂ : List q.Lane} {σ σ₁ σ₂ : q.Site} {t u : Trace} :
      q.Step workers lanes σ t lanes₁ σ₁ → Steps workers lanes₁ σ₁ u lanes₂ σ₂ →
      Steps workers lanes σ (t ++ u) lanes₂ σ₂

/-- How a suite plays in these surroundings. What is no matter of a pool is served at once. A suite that
stalls does not come to the end of its play. -/
inductive Plays (workers : Nat) {α : Type} :
    SuiteRoutine α → q.Site × q.Plot → Trace → α → q.Site × q.Plot → Prop where
  | done (a : α) (w : q.Site × q.Plot) : Plays workers (.done a) w [] a w
  | single {r : Request} {next : (SuiteRequest.single r).Answer → SuiteRoutine α}
      {w w' : q.Site × q.Plot} {t : Trace} {a : α} :
      Plays workers (next (q.serve r w).1) (q.serve r w).2 t a w' →
      Plays workers (.ask (.single r) next) w
        (⟨r, (q.serve r w).1, (q.serve r w).2.1.requested⟩ :: t) a w'
  | pool {jobs : List Job} {next : (SuiteRequest.pool jobs).Answer → SuiteRoutine α}
      {ends : List (Except Fault ScenarioResult)} {σ σ' : q.Site} {c : q.Plot}
      {w' : q.Site × q.Plot} {t u : Trace} {a : α} :
      q.Steps workers (jobs.map .waiting) σ t (ends.map .ended) σ' →
      Plays workers (next ends) (σ', c) u a w' →
      Plays workers (.ask (.pool jobs) next) (σ, c) (t ++ u) a w'

/-- A pool in which a single worker takes one job after the other. -/
def playPool : List Job → q.Site → Trace × List (Except Fault ScenarioResult) × q.Site
  | [], σ => ([], [], σ)
  | j :: jobs, σ =>
    let (o, w) := j.runWith q.serve (σ, q.fresh)
    let (t, ends, σ') := playPool jobs w.1
    (q.traceOf j (σ, q.fresh) ++ t, o :: ends, σ')

/-- One way in which a suite plays, and what it comes to unless it stalls. -/
def play {α : Type} : SuiteRoutine α → q.Site × q.Plot → Trace × Option (α × (q.Site × q.Plot))
  | .done a, w => ([], some (a, w))
  | .ask (.single r) next, w =>
    let (x, w) := q.serve r w
    let (t, rest) := play (next x) w
    (⟨r, x, w.1.requested⟩ :: t, rest)
  | .ask (.pool jobs) next, w =>
    let (t, ends, σ) := q.playPool jobs w.1
    let (u, rest) := play (next ends) (σ, w.2)
    (t ++ u, rest)
  | .ask .stall _, _ => ([], none)

variable {q} {workers : Nat} {α β : Type} {w w' : q.Site × q.Plot} {t : Trace} {a : α}

section Plays

theorem plays_done_iff {b : α} : q.Plays workers (.done a) w t b w' ↔ t = [] ∧ b = a ∧ w' = w := by
  constructor
  · intro h
    cases h
    exact ⟨rfl, rfl, rfl⟩
  · rintro ⟨rfl, rfl, rfl⟩
    exact .done b _

theorem plays_single_iff {r : Request} {next : (SuiteRequest.single r).Answer → SuiteRoutine α} :
    q.Plays workers (.ask (.single r) next) w t a w' ↔
      ∃ u, t = ⟨r, (q.serve r w).1, (q.serve r w).2.1.requested⟩ :: u ∧
        q.Plays workers (next (q.serve r w).1) (q.serve r w).2 u a w' := by
  constructor
  · intro h
    cases h with
    | single h => exact ⟨_, rfl, h⟩
  · rintro ⟨u, rfl, h⟩
    exact .single h

theorem plays_pool_iff {jobs : List Job} {next : (SuiteRequest.pool jobs).Answer → SuiteRoutine α} :
    q.Plays workers (.ask (.pool jobs) next) w t a w' ↔
      ∃ ends σ u v, t = u ++ v ∧ q.Steps workers (jobs.map .waiting) w.1 u (ends.map .ended) σ ∧
        q.Plays workers (next ends) (σ, w.2) v a w' := by
  constructor
  · intro h
    cases h with
    | pool hs h => exact ⟨_, _, _, _, rfl, hs, h⟩
  · rintro ⟨ends, σ, u, v, rfl, hs, h⟩
    exact .pool hs h

theorem plays_bind_iff {p : SuiteRoutine α} {f : α → SuiteRoutine β} {b : β} :
    q.Plays workers (p >>= f) w t b w' ↔
      ∃ u v a w₁, t = u ++ v ∧ q.Plays workers p w u a w₁ ∧ q.Plays workers (f a) w₁ v b w' := by
  induction p generalizing w t with
  | done a =>
    rw [Program.done_bind]
    constructor
    · exact fun h => ⟨[], t, a, w, rfl, .done a w, h⟩
    · rintro ⟨u, v, a', w₁, rfl, hp, hf⟩
      obtain ⟨rfl, rfl, rfl⟩ := plays_done_iff.1 hp
      exact hf
  | ask r next ih =>
    rw [Program.ask_bind]
    cases r with
    | single r =>
      rw [plays_single_iff]
      constructor
      · rintro ⟨u, rfl, h⟩
        obtain ⟨u, v, a, w₁, rfl, hp, hf⟩ := (ih _).1 h
        exact ⟨_ :: u, v, a, w₁, rfl, .single hp, hf⟩
      · rintro ⟨u, v, a, w₁, rfl, hp, hf⟩
        obtain ⟨u, rfl, h⟩ := plays_single_iff.1 hp
        exact ⟨u ++ v, rfl, (ih _).2 ⟨u, v, a, w₁, rfl, h, hf⟩⟩
    | pool jobs =>
      rw [plays_pool_iff]
      constructor
      · rintro ⟨ends, σ, t₁, u, rfl, hs, h⟩
        obtain ⟨u, v, a, w₁, rfl, hp, hf⟩ := (ih _).1 h
        exact ⟨t₁ ++ u, v, a, w₁, (List.append_assoc ..).symm, plays_pool_iff.2
          ⟨ends, σ, t₁, u, rfl, hs, hp⟩, hf⟩
      · rintro ⟨u, v, a, w₁, rfl, hp, hf⟩
        obtain ⟨ends, σ, t₁, u, rfl, hs, h⟩ := plays_pool_iff.1 hp
        exact ⟨ends, σ, t₁, u ++ v, List.append_assoc .., hs, (ih _).2 ⟨u, v, a, w₁, rfl, h, hf⟩⟩
    | stall =>
      constructor
      · intro h
        cases h
      · rintro ⟨_, _, _, _, rfl, hp, _⟩
        cases hp

/-- A routine plays in one way. -/
theorem plays_inSuite_iff {p : Routine α} :
    q.Plays workers p.inSuite w t a w' ↔ t = q.traceOf p w ∧ (a, w') = p.runWith q.serve w := by
  induction p generalizing w t with
  | done b =>
    refine plays_done_iff.trans (and_congr_right fun _ => ?_)
    exact Prod.mk.injEq .. ▸ Iff.rfl
  | ask r next ih =>
    refine plays_single_iff.trans ?_
    constructor
    · rintro ⟨u, rfl, h⟩
      obtain ⟨rfl, hr⟩ := (ih _).1 h
      exact ⟨rfl, hr⟩
    · rintro ⟨rfl, hr⟩
      exact ⟨_, rfl, (ih _).2 ⟨rfl, hr⟩⟩

end Plays

section Steps
variable {lanes lanes' : List q.Lane} {σ σ' : q.Site}

theorem Steps.trans {lanes₁ : List q.Lane} {σ₁ : q.Site} {u : Trace}
    (h : q.Steps workers lanes σ t lanes₁ σ₁) (h' : q.Steps workers lanes₁ σ₁ u lanes' σ') :
    q.Steps workers lanes σ (t ++ u) lanes' σ' := by
  induction h with
  | refl => exact h'
  | step hs _ ih =>
    rw [List.append_assoc]
    exact .step hs (ih h')

/-- A worker that goes on with its job to the end. -/
theorem steps_working (before after : List q.Lane) (p : Job) (c : q.Plot) (σ : q.Site) :
    q.Steps workers (before ++ .working p c :: after) σ (q.traceOf p (σ, c))
      (before ++ .ended (p.runWith q.serve (σ, c)).1 :: after) (p.runWith q.serve (σ, c)).2.1 := by
  induction p generalizing c σ with
  | done o => exact .step (.finish before after o σ c) (.refl _ _)
  | ask r next ih => exact .step (.move before after r next σ c) (ih _ _ _)

theorem countP_busy_ended (ends : List (Except Fault ScenarioResult)) (jobs : List Job) :
    (ends.map Lane.ended ++ jobs.map Lane.waiting : List q.Lane).countP Lane.busy = 0 := by
  refine List.countP_eq_zero.2 fun ℓ hℓ => ?_
  rcases List.mem_append.1 hℓ with hℓ | hℓ <;> obtain ⟨_, _, rfl⟩ := List.mem_map.1 hℓ <;> exact nofun

theorem steps_playPool (hw : 0 < workers) (jobs : List Job) (σ : q.Site) :
    q.Steps workers (jobs.map .waiting) σ (q.playPool jobs σ).1 ((q.playPool jobs σ).2.1.map .ended)
      (q.playPool jobs σ).2.2 := by
  suffices h : ∀ ends : List (Except Fault ScenarioResult),
      q.Steps workers (ends.map .ended ++ jobs.map .waiting) σ (q.playPool jobs σ).1
        ((ends ++ (q.playPool jobs σ).2.1).map .ended) (q.playPool jobs σ).2.2 from h []
  intro ends
  induction jobs generalizing ends σ with
  | nil => simpa [playPool] using Steps.refl _ _
  | cons j jobs ih =>
    have hfree := Nat.lt_of_le_of_lt (Nat.le_of_eq (countP_busy_ended (q := q) ends (j :: jobs))) hw
    have hpick := Step.pick (ends.map .ended) (jobs.map .waiting) j σ hfree
    have hgo : q.Steps workers _ σ _ _ _ :=
      steps_working (ends.map .ended) (jobs.map .waiting) j q.fresh σ
    have hrest := ih (j.runWith q.serve (σ, q.fresh)).2.1 (ends ++ [(j.runWith q.serve (σ, q.fresh)).1])
    rw [List.map_append, List.append_assoc, List.append_assoc] at hrest
    have hsteps := Steps.step hpick (hgo.trans hrest)
    exact hsteps

theorem plays_play (hw : 0 < workers) {p : SuiteRoutine α} (h : (q.play p w).2 = some (a, w')) :
    q.Plays workers p w (q.play p w).1 a w' := by
  induction p generalizing w with
  | done b =>
    cases h
    exact .done _ _
  | ask r next ih =>
    cases r with
    | single r => exact .single (ih _ h)
    | pool jobs => exact .pool (steps_playPool hw jobs w.1) (ih _ h)
    | stall => cases h

/-- What is left of a job. -/
def Lane.left : q.Lane → Job
  | waiting j => j
  | working p _ => p
  | ended o => .done o

/-- What is seen of the steps of a pool is seen of its jobs beside each other. -/
theorem overlap_of_steps {u : Trace} {ends : List (Except Fault ScenarioResult)}
    (h : q.Steps workers lanes σ t lanes' σ') (hu : Overlap (lanes'.map Lane.left) ends u) :
    Overlap (lanes.map Lane.left) ends (t ++ u) := by
  induction h with
  | refl => exact hu
  | step hs _ ih =>
    have hrest := ih hu
    cases hs with
    | pick before after j _ _ => simpa [Lane.left] using hrest
    | move before after r next _ c =>
      rw [List.map_append, List.map_cons] at hrest ⊢
      exact hrest.of_left _
    | finish before after o _ c => simpa [Lane.left] using hrest

/-- How a suite plays here is one of the ways in which it can go. -/
theorem shows_of_plays {p : SuiteRoutine α} (h : q.Plays workers p w t a w') : p.Shows t a := by
  induction h with
  | done a => exact .done a
  | single _ ih => exact .single _ _ ih
  | @pool jobs next ends σ σ' c w' t u a hs _ ih =>
    have hleft : (ends.map Lane.ended : List q.Lane).map Lane.left = ends.map .done := List.map_map ..
    have hended := overlap_of_steps hs (hleft ▸ Overlap.done ends)
    rw [List.append_nil, List.map_map] at hended
    have hjobs : jobs.map (Lane.left ∘ (Lane.waiting : Job → q.Lane)) = jobs := List.map_id _
    rw [hjobs] at hended
    exact .pool hended ih

end Steps
end Quarters
end Rehearsal
