import Rehearsal.Proofs.Effect
import Rehearsal.Proofs.Except
import Rehearsal.Proofs.Observation
import Rehearsal.Run.Suite

/-! What can be seen of the run of a suite. Seen from outside it is one trace, like the run of a
scenario; where jobs run in a pool, the trace is made of the traces of the jobs, each in its own order,
and nothing is said of how they mix. -/

namespace Rehearsal
set_option autoImplicit false

/-- A list made of two others, each in its own order. -/
inductive Shuffle {α : Type} : List α → List α → List α → Prop where
  | nil : Shuffle [] [] []
  | left {xs ys zs : List α} (x : α) : Shuffle xs ys zs → Shuffle (x :: xs) ys (x :: zs)
  | right {xs ys zs : List α} (y : α) : Shuffle xs ys zs → Shuffle xs (y :: ys) (y :: zs)

namespace Shuffle
variable {α : Type} {xs ys zs : List α}

theorem append (xs ys : List α) : Shuffle xs ys (xs ++ ys) := by
  induction xs with
  | nil =>
    induction ys with
    | nil => exact .nil
    | cons y ys ih => exact .right y ih
  | cons x xs ih => exact .left x ih

theorem perm (h : Shuffle xs ys zs) : zs.Perm (xs ++ ys) := by
  induction h with
  | nil => exact .nil
  | left x _ ih => exact ih.cons x
  | right y _ ih => exact (ih.cons y).trans List.perm_middle.symm

theorem sublist_left (h : Shuffle xs ys zs) : xs.Sublist zs := by
  induction h with
  | nil => exact List.Sublist.slnil
  | left x _ ih => exact ih.cons_cons x
  | right y _ ih => exact ih.cons y

theorem sublist_right (h : Shuffle xs ys zs) : ys.Sublist zs := by
  induction h with
  | nil => exact List.Sublist.slnil
  | left x _ ih => exact ih.cons x
  | right y _ ih => exact ih.cons_cons y

theorem mem (h : Shuffle xs ys zs) {z : α} (hz : z ∈ zs) : z ∈ xs ∨ z ∈ ys := by
  induction h with
  | nil => exact .inl hz
  | left x _ ih =>
    rcases List.mem_cons.1 hz with rfl | hz
    · exact .inl List.mem_cons_self
    · exact (ih hz).imp_left (List.mem_cons_of_mem x)
  | right y _ ih =>
    rcases List.mem_cons.1 hz with rfl | hz
    · exact .inr List.mem_cons_self
    · exact (ih hz).imp_right (List.mem_cons_of_mem y)

end Shuffle

/-- Jobs beside each other: each runs to its end, and what is seen of them is mixed. -/
inductive Overlap : List Job → List (Except Fault ScenarioResult) → Trace → Prop where
  | nil : Overlap [] [] []
  | cons {j : Job} {o : Except Fault ScenarioResult} {jobs : List Job}
      {ends : List (Except Fault ScenarioResult)} {t u w : Trace} :
      j.Runs t o → Overlap jobs ends u → Shuffle t u w → Overlap (j :: jobs) (o :: ends) w

namespace Overlap
variable {jobs : List Job} {ends : List (Except Fault ScenarioResult)} {w : Trace}

theorem forall₂ (h : Overlap jobs ends w) :
    List.Forall₂ (fun j o => ∃ t : Trace, t.Sublist w ∧ j.Runs t o) jobs ends := by
  induction h with
  | nil => exact .nil
  | @cons j o jobs ends t u w hj _ hw ih =>
    refine .cons ⟨t, hw.sublist_left, hj⟩ (ih.imp ?_)
    rintro k e ⟨v, hv, hk⟩
    exact ⟨v, hv.trans hw.sublist_right, hk⟩

theorem exists_end (h : Overlap jobs ends w) {o : Except Fault ScenarioResult} (ho : o ∈ ends) :
    ∃ j ∈ jobs, ∃ t : Trace, t.Sublist w ∧ j.Runs t o :=
  exists_left_of_forall₂ h.forall₂ ho

theorem exists_job (h : Overlap jobs ends w) {m : Moment Request.Answer Bool} (hm : m ∈ w) :
    ∃ j ∈ jobs, ∃ t o, j.Runs t o ∧ m ∈ t := by
  induction h with
  | nil => cases hm
  | @cons j o jobs ends t u w hj _ hw ih =>
    rcases hw.mem hm with hm | hm
    · exact ⟨j, List.mem_cons_self, t, o, hj, hm⟩
    · obtain ⟨k, hk, hrest⟩ := ih hm
      exact ⟨k, List.mem_cons_of_mem j hk, hrest⟩

/-- Jobs that have come to their ends. -/
theorem done (ends : List (Except Fault ScenarioResult)) : Overlap (ends.map .done) ends [] := by
  induction ends with
  | nil => exact .nil
  | cons o ends ih => exact .cons (.done o) ih .nil

/-- One of the jobs makes its first request before anything else is seen. -/
theorem of_left {before after : List Job} {r : Request} {next : r.Answer → Job} {x : r.Answer} (b : Bool)
    (h : Overlap (before ++ next x :: after) ends w) :
    Overlap (before ++ .ask r next :: after) ends (⟨r, x, b⟩ :: w) := by
  induction before generalizing ends w with
  | nil =>
    cases h with
    | cons hj hrest hmix => exact .cons (.ask x b hj) hrest (.left _ hmix)
  | cons j before ih =>
    cases h with
    | cons hj hrest hmix => exact .cons hj (ih hrest) (.right _ hmix)

end Overlap

namespace Program
variable {α β : Type} {t : Trace} {a : α}

/-- The program of a suite ends with a value, and a trace shows what was seen of it. -/
inductive Shows : SuiteRoutine α → Trace → α → Prop where
  | done (a : α) : Shows (.done a) [] a
  | single {r : Request} {next : (SuiteRequest.single r).Answer → SuiteRoutine α} {t : Trace} {a : α}
      (x : r.Answer) (b : Bool) :
      Shows (next x) t a → Shows (.ask (.single r) next) (⟨r, x, b⟩ :: t) a
  | pool {jobs : List Job} {next : (SuiteRequest.pool jobs).Answer → SuiteRoutine α}
      {ends : List (Except Fault ScenarioResult)} {t u : Trace} {a : α} :
      Overlap jobs ends t → Shows (next ends) u a → Shows (.ask (.pool jobs) next) (t ++ u) a

/-- The program of a suite comes to wait without end, and a trace shows what was seen of it before. -/
inductive Stalls : SuiteRoutine α → Trace → Prop where
  | stall {next : SuiteRequest.stall.Answer → SuiteRoutine α} : Stalls (.ask .stall next) []
  | single {r : Request} {next : (SuiteRequest.single r).Answer → SuiteRoutine α} {t : Trace}
      (x : r.Answer) (b : Bool) : Stalls (next x) t → Stalls (.ask (.single r) next) (⟨r, x, b⟩ :: t)
  | pool {jobs : List Job} {next : (SuiteRequest.pool jobs).Answer → SuiteRoutine α}
      {ends : List (Except Fault ScenarioResult)} {t u : Trace} :
      Overlap jobs ends t → Stalls (next ends) u → Stalls (.ask (.pool jobs) next) (t ++ u)

/-- All that is seen of a program, whether it comes to its end or stalls. -/
def Leaves (p : SuiteRoutine α) (t : Trace) : Prop := (∃ a, p.Shows t a) ∨ p.Stalls t

theorem shows_done_iff {b : α} : Shows (.done a) t b ↔ t = [] ∧ b = a := by
  constructor
  · intro h
    cases h
    exact ⟨rfl, rfl⟩
  · rintro ⟨rfl, rfl⟩
    exact .done b

theorem shows_single_iff {r : Request} {next : (SuiteRequest.single r).Answer → SuiteRoutine α} :
    Shows (.ask (.single r) next) t a ↔
      ∃ (x : r.Answer) (b : Bool) (u : Trace), t = ⟨r, x, b⟩ :: u ∧ Shows (next x) u a := by
  constructor
  · intro h
    cases h with
    | single x b h => exact ⟨x, b, _, rfl, h⟩
  · rintro ⟨x, b, u, rfl, h⟩
    exact .single x b h

theorem shows_pool_iff {jobs : List Job} {next : (SuiteRequest.pool jobs).Answer → SuiteRoutine α} :
    Shows (.ask (.pool jobs) next) t a ↔
      ∃ (ends : List (Except Fault ScenarioResult)) (u v : Trace), t = u ++ v ∧
        Overlap jobs ends u ∧ Shows (next ends) v a := by
  constructor
  · intro h
    cases h with
    | pool hj h => exact ⟨_, _, _, rfl, hj, h⟩
  · rintro ⟨ends, u, v, rfl, hj, h⟩
    exact .pool hj h

theorem shows_bind_iff {p : SuiteRoutine α} {f : α → SuiteRoutine β} {b : β} :
    Shows (p >>= f) t b ↔ ∃ u v a, t = u ++ v ∧ Shows p u a ∧ Shows (f a) v b := by
  induction p generalizing t with
  | done a =>
    rw [done_bind]
    constructor
    · exact fun h => ⟨[], t, a, rfl, .done a, h⟩
    · rintro ⟨u, v, a', rfl, hp, hf⟩
      obtain ⟨rfl, rfl⟩ := shows_done_iff.1 hp
      exact hf
  | ask q next ih =>
    rw [ask_bind]
    cases q with
    | single r =>
      rw [shows_single_iff]
      constructor
      · rintro ⟨x, m, w, rfl, h⟩
        obtain ⟨u, v, a, rfl, hp, hf⟩ := (ih x).1 h
        exact ⟨⟨r, x, m⟩ :: u, v, a, rfl, .single x m hp, hf⟩
      · rintro ⟨u, v, a, rfl, hp, hf⟩
        obtain ⟨x, m, w, rfl, hx⟩ := shows_single_iff.1 hp
        exact ⟨x, m, w ++ v, rfl, (ih x).2 ⟨w, v, a, rfl, hx, hf⟩⟩
    | pool jobs =>
      rw [shows_pool_iff]
      constructor
      · rintro ⟨ends, t₁, w, rfl, hj, h⟩
        obtain ⟨u, v, a, rfl, hp, hf⟩ := (ih ends).1 h
        exact ⟨t₁ ++ u, v, a, (List.append_assoc t₁ u v).symm, .pool hj hp, hf⟩
      · rintro ⟨u, v, a, rfl, hp, hf⟩
        obtain ⟨ends, t₁, w, rfl, hj, hx⟩ := shows_pool_iff.1 hp
        exact ⟨ends, t₁, w ++ v, List.append_assoc t₁ w v, hj, (ih ends).2 ⟨w, v, a, rfl, hx, hf⟩⟩
    | stall =>
      constructor
      · intro h
        cases h
      · rintro ⟨_, _, _, rfl, hp, _⟩
        cases hp

/-- A routine is seen in a suite as it is seen on its own. -/
theorem shows_inSuite_iff {p : Routine α} : Shows p.inSuite t a ↔ p.Runs t a := by
  induction p generalizing t with
  | done b => rw [inSuite, shows_done_iff, runs_done_iff]
  | ask r next ih =>
    rw [runs_ask_iff]
    refine shows_single_iff.trans ?_
    constructor
    · rintro ⟨x, b, u, rfl, h⟩
      exact ⟨x, b, u, rfl, (ih x).1 h⟩
    · rintro ⟨x, b, u, rfl, h⟩
      exact ⟨x, b, u, rfl, (ih x).2 h⟩

end Program

namespace Suite
variable {α β : Type} {l l' : List FeatureResult} {t : Trace}

/-- How an action of a suite goes: what is seen of it, how it ends, and with which results. -/
def Goes (x : Action α) (l : List FeatureResult) (t : Trace) (o : Except Fault α)
    (l' : List FeatureResult) : Prop :=
  (x.run.run l).Shows t (o, l')

theorem shows_run_iff {s : Suite} {features : List Feature} {o : Except Fault SuiteResult} :
    (s.run features).Shows t o ↔ ∃ l', Goes (s.runAll features) [] t o l' := by
  rw [run, Program.shows_bind_iff]
  constructor
  · rintro ⟨u, v, ⟨r, l'⟩, rfl, hc, hd⟩
    obtain ⟨rfl, rfl⟩ := Program.shows_done_iff.1 hd
    rw [List.append_nil]
    exact ⟨l', hc⟩
  · rintro ⟨l', h⟩
    exact ⟨t, [], (o, l'), (List.append_nil t).symm, h, .done o⟩

theorem goes_of_run_eq_done {x : Action α} {o o' : Except Fault α} {l₁ : List FeatureResult}
    (h : x.run.run l = .done (o', l₁)) : Goes x l t o l' ↔ t = [] ∧ o = o' ∧ l' = l₁ := by
  rw [Goes, h, Program.shows_done_iff, Prod.mk.injEq]

theorem goes_pure_iff {a : α} {o : Except Fault α} :
    Goes (pure a) l t o l' ↔ t = [] ∧ o = .ok a ∧ l' = l :=
  goes_of_run_eq_done rfl

theorem goes_throw_iff {f : Fault} {o : Except Fault α} :
    Goes (throw f) l t o l' ↔ t = [] ∧ o = .error f ∧ l' = l :=
  goes_of_run_eq_done rfl

theorem run_settle (r : Except Fault α) : (Action.settle r).run.run l = .done (r, l) := by
  cases r <;> rfl

theorem goes_settle_iff {r o : Except Fault α} :
    Goes (Action.settle r) l t o l' ↔ t = [] ∧ o = r ∧ l' = l :=
  goes_of_run_eq_done (run_settle r)

theorem run_bind (x : Action α) (f : α → Action β) :
    (x >>= f).run.run l = x.run.run l >>= fun r =>
      match r.1 with
      | .ok a => (f a).run.run r.2
      | .error e => .done (.error e, r.2) := by
  rw [ExceptT.run_bind, StateT.run_bind]
  congr 1
  funext r
  rcases r with ⟨_ | _, _⟩ <;> rfl

theorem goes_bind_iff {x : Action α} {f : α → Action β} {o : Except Fault β} :
    Goes (x >>= f) l t o l' ↔
      (∃ u v a l₁, t = u ++ v ∧ Goes x l u (.ok a) l₁ ∧ Goes (f a) l₁ v o l') ∨
        ∃ e, o = .error e ∧ Goes x l t (.error e) l' := by
  rw [Goes, run_bind, Program.shows_bind_iff]
  constructor
  · rintro ⟨u, v, ⟨o₁, l₁⟩, rfl, hx, hf⟩
    cases o₁ with
    | ok a => exact .inl ⟨u, v, a, l₁, rfl, hx, hf⟩
    | error e =>
      obtain ⟨rfl, he⟩ := Program.shows_done_iff.1 hf
      obtain ⟨rfl, rfl⟩ := Prod.mk.inj he
      rw [List.append_nil]
      exact .inr ⟨e, rfl, hx⟩
  · rintro (⟨u, v, a, l₁, rfl, hx, hf⟩ | ⟨e, rfl, hx⟩)
    · exact ⟨u, v, (.ok a, l₁), rfl, hx, hf⟩
    · exact ⟨t, [], (.error e, l'), (List.append_nil t).symm, hx, .done _⟩

theorem goes_bind_ok_iff {x : Action α} {f : α → Action β} {b : β} :
    Goes (x >>= f) l t (.ok b) l' ↔
      ∃ u v a l₁, t = u ++ v ∧ Goes x l u (.ok a) l₁ ∧ Goes (f a) l₁ v (.ok b) l' := by
  rw [goes_bind_iff]
  constructor
  · rintro (h | ⟨e, he, _⟩)
    · exact h
    · cases he
  · exact .inl

theorem goes_bind_pure_iff {x : Action α} {f : α → β} {o : Except Fault β} :
    Goes (x >>= fun a => pure (f a)) l t o l' ↔ ∃ r, o = r.map f ∧ Goes x l t r l' := by
  rw [goes_bind_iff]
  constructor
  · rintro (⟨u, v, a, l₁, rfl, hx, hp⟩ | ⟨e, rfl, hx⟩)
    · obtain ⟨rfl, rfl, rfl⟩ := goes_pure_iff.1 hp
      rw [List.append_nil]
      exact ⟨.ok a, rfl, hx⟩
    · exact ⟨.error e, rfl, hx⟩
  · rintro ⟨r, rfl, hx⟩
    cases r with
    | ok a =>
      exact .inl ⟨t, [], a, l', (List.append_nil t).symm, hx, goes_pure_iff.2 ⟨rfl, rfl, rfl⟩⟩
    | error e => exact .inr ⟨e, rfl, hx⟩

theorem goes_bind_pure_ok_iff {x : Action α} {f : α → β} {b : β} :
    Goes (x >>= fun a => pure (f a)) l t (.ok b) l' ↔ ∃ a, b = f a ∧ Goes x l t (.ok a) l' := by
  rw [goes_bind_pure_iff]
  constructor
  · rintro ⟨r, hr, hx⟩
    cases r with
    | ok a => exact ⟨a, Except.ok.inj hr, hx⟩
    | error e => cases hr
  · rintro ⟨a, rfl, hx⟩
    exact ⟨.ok a, rfl, hx⟩

theorem goes_get_bind_iff {f : List FeatureResult → Action β} {o : Except Fault β} :
    Goes (get >>= f) l t o l' ↔ Goes (f l) l t o l' := by
  have h : (get >>= f).run.run l = (f l).run.run l := rfl
  rw [Goes, h, Goes]

theorem goes_modify_bind_iff {g : List FeatureResult → List FeatureResult}
    {f : PUnit → Action β} {o : Except Fault β} :
    Goes (modify g >>= f) l t o l' ↔ Goes (f ⟨⟩) (g l) t o l' := by
  have h : (modify g >>= f).run.run l = (f ⟨⟩).run.run (g l) := rfl
  rw [Goes, h, Goes]

theorem goes_perform_bind_iff {r : Request} {f : r.Answer → Action β} {o : Except Fault β} :
    Goes (Action.perform r >>= f) l t o l' ↔
      ∃ x b u, t = ⟨r, x, b⟩ :: u ∧ Goes (f x) l u o l' := by
  have h : (Action.perform r >>= f).run.run l = .ask (.single r) fun x => (f x).run.run l := rfl
  rw [Goes, h]
  exact Program.shows_single_iff

theorem goes_perform_iff {r : Request} {o : Except Fault r.Answer} :
    Goes (Action.perform r) l t o l' ↔ l' = l ∧ ∃ x b, o = .ok x ∧ t = [⟨r, x, b⟩] := by
  have h : (Action.perform r).run.run l = .ask (.single r) fun x => .done (.ok x, l) := rfl
  rw [Goes, h]
  refine Program.shows_single_iff.trans ?_
  constructor
  · rintro ⟨x, b, u, rfl, hd⟩
    obtain ⟨rfl, he⟩ := Program.shows_done_iff.1 hd
    obtain ⟨rfl, rfl⟩ := Prod.mk.inj he
    exact ⟨rfl, x, b, rfl, rfl⟩
  · rintro ⟨rfl, x, b, rfl, rfl⟩
    exact ⟨x, b, [], rfl, .done _⟩

theorem goes_proceed_iff {f : Option Fault} {o : Except Fault Unit} :
    Goes (Action.proceed f) l t o l' ↔ t = [] ∧ l' = l ∧ errorIn o = f := by
  cases f with
  | none =>
    rw [Action.proceed, goes_pure_iff]
    cases o <;> simp
  | some f =>
    rw [Action.proceed, goes_throw_iff]
    cases o <;> simp [and_comm]

theorem goes_perform_proceed_iff {r : Request} {g : r.Answer → Option Fault}
    {o : Except Fault Unit} :
    Goes (Action.perform r >>= fun x => Action.proceed (g x)) l t o l' ↔
      l' = l ∧ ∃ x b, t = [⟨r, x, b⟩] ∧ errorIn o = g x := by
  rw [goes_perform_bind_iff]
  constructor
  · rintro ⟨x, b, u, rfl, h⟩
    obtain ⟨rfl, rfl, ho⟩ := goes_proceed_iff.1 h
    exact ⟨rfl, x, b, rfl, ho⟩
  · rintro ⟨rfl, x, b, rfl, ho⟩
    exact ⟨x, b, [], rfl, goes_proceed_iff.2 ⟨rfl, rfl, ho⟩⟩

theorem goes_observe_iff {x : Action α} {o : Except Fault (Except Fault α)} :
    Goes (Action.observe x) l t o l' ↔ ∃ r, o = .ok r ∧ Goes x l t r l' := by
  have h : (Action.observe x).run.run l = x.run.run l >>= fun r => .done (.ok r.1, r.2) := rfl
  rw [Goes, h, Program.shows_bind_iff]
  constructor
  · rintro ⟨u, v, ⟨r, l₁⟩, rfl, hx, hd⟩
    obtain ⟨rfl, he⟩ := Program.shows_done_iff.1 hd
    obtain ⟨rfl, rfl⟩ := Prod.mk.inj he
    rw [List.append_nil]
    exact ⟨r, rfl, hx⟩
  · rintro ⟨r, rfl, hx⟩
    exact ⟨t, [], (r, l'), (List.append_nil t).symm, hx, .done _⟩

theorem goes_observe_bind_iff {x : Action α} {f : Except Fault α → Action β} {o : Except Fault β} :
    Goes (Action.observe x >>= f) l t o l' ↔
      ∃ u v r l₁, t = u ++ v ∧ Goes x l u r l₁ ∧ Goes (f r) l₁ v o l' := by
  rw [goes_bind_iff]
  constructor
  · rintro (⟨u, v, r, l₁, rfl, hx, hf⟩ | ⟨e, rfl, hx⟩)
    · obtain ⟨_, hr, hx⟩ := goes_observe_iff.1 hx
      cases hr
      exact ⟨u, v, r, l₁, rfl, hx, hf⟩
    · obtain ⟨_, hr, _⟩ := goes_observe_iff.1 hx
      cases hr
  · rintro ⟨u, v, r, l₁, rfl, hx, hf⟩
    exact .inl ⟨u, v, r, l₁, rfl, goes_observe_iff.2 ⟨r, rfl, hx⟩, hf⟩

theorem goes_settle_bind_iff {r : Except Fault α} {f : α → Action β} {o : Except Fault β} :
    Goes (Action.settle r >>= f) l t o l' ↔ (∃ a, r = .ok a ∧ Goes (f a) l t o l') ∨
      ∃ e, r = .error e ∧ t = [] ∧ o = .error e ∧ l' = l := by
  cases r with
  | ok a =>
    have h : (Action.settle (.ok a) >>= f).run.run l = (f a).run.run l := rfl
    rw [Goes, h]
    simp [Goes]
  | error e =>
    have h : (Action.settle (.error e) >>= f).run.run l = .done (.error e, l) := rfl
    rw [goes_of_run_eq_done h]
    simp

/-- A job of a suite goes as it runs. -/
theorem run_job (j : Job) :
    (Action.job j).run.run l = j.inSuite >>= fun r => (Action.settle r).run.run l := by
  have hlift : (ExceptT.lift (StateT.lift j.inSuite) :
      Action (Except Fault ScenarioResult)).run.run l =
        j.inSuite >>= fun r => .done (.ok r, l) := by
    simp only [ExceptT.run_lift, StateT.run_map, StateT.run_lift, map_bind]
    rfl
  rw [Action.job, ExceptT.run_bind, StateT.run_bind, hlift, Program.bind_assoc]
  rfl

theorem goes_job_iff {j : Job} {o : Except Fault ScenarioResult} :
    Goes (Action.job j) l t o l' ↔ l' = l ∧ j.Runs t o := by
  rw [Goes, run_job, Program.shows_bind_iff]
  constructor
  · rintro ⟨u, v, r, rfl, hj, hs⟩
    obtain ⟨rfl, rfl, rfl⟩ := goes_settle_iff.1 hs
    rw [List.append_nil]
    exact ⟨rfl, Program.shows_inSuite_iff.1 hj⟩
  · rintro ⟨rfl, hj⟩
    refine ⟨t, [], o, (List.append_nil t).symm, Program.shows_inSuite_iff.2 hj, ?_⟩
    exact goes_settle_iff.2 ⟨rfl, rfl, rfl⟩

theorem run_stall : (Action.stall : Action α).run.run l = .ask .stall fun x : Empty => x.elim :=
  congrArg (Program.ask SuiteRequest.stall) (funext fun x : Empty => x.elim)

theorem run_stall_bind (f : α → Action β) :
    (Action.stall >>= f).run.run l = (Action.stall : Action β).run.run l := by
  rw [run_bind, run_stall, run_stall]
  exact congrArg (Program.ask SuiteRequest.stall) (funext fun x : Empty => x.elim)

/-- A fault that is collected cuts short what comes after it, or is waited for without end. -/
theorem run_collect_error_bind (e : Fault) (f : α → Action β) :
    (Action.collect (.error e) >>= f).run.run l = (Action.collect (.error e)).run.run l := by
  rw [Action.collect, Action.collect]
  split
  · exact run_stall_bind f
  · rfl

/-- The first fault among ends is what they all come to. -/
theorem run_mapM_collect (ends : List (Except Fault α)) :
    (ends.mapM Action.collect).run.run l = (Action.collect (ends.mapM id)).run.run l := by
  induction ends with
  | nil => rfl
  | cons e ends ih =>
    rw [List.mapM_cons, List.mapM_cons]
    cases e with
    | error f => exact run_collect_error_bind f _
    | ok a =>
      change (ends.mapM Action.collect >>= fun as => pure (a :: as)).run.run l = _
      rw [run_bind, ih, ← run_bind]
      cases ends.mapM id with
      | ok as => rfl
      | error f => exact run_collect_error_bind f _

theorem goes_collect_iff {r o : Except Fault α} :
    Goes (Action.collect r) l t o l' ↔
      t = [] ∧ o = r ∧ l' = l ∧ ∀ f, r = .error f → f.family ≠ .interrupt := by
  cases r with
  | ok a => exact goes_pure_iff.trans (by simp)
  | error f =>
    rw [Action.collect]
    split
    · rename_i hf
      refine iff_of_false (fun h => ?_) fun h => h.2.2.2 f rfl (eq_of_beq hf)
      rw [Goes, run_stall] at h
      cases h
    · rename_i hf
      have hcalm : ∀ g, (Except.error f : Except Fault α) = .error g → g.family ≠ .interrupt := by
        rintro _ ⟨⟩ hg
        exact hf (beq_iff_eq.2 hg)
      rw [goes_throw_iff, and_congr_right_iff, and_congr_right_iff]
      exact fun _ _ => (and_iff_left hcalm).symm

theorem goes_mapM_collect_iff {ends : List (Except Fault α)} {o : Except Fault (List α)} :
    Goes (ends.mapM Action.collect) l t o l' ↔
      t = [] ∧ o = ends.mapM id ∧ l' = l ∧ ∀ f, o = .error f → f.family ≠ .interrupt := by
  rw [Goes, run_mapM_collect]
  refine goes_collect_iff.trans (and_congr_right fun _ => and_congr_right ?_)
  rintro rfl
  rfl

theorem goes_pool_bind_iff {jobs : List Job}
    {f : List (Except Fault ScenarioResult) → Action β} {o : Except Fault β} :
    Goes (Action.pool jobs >>= f) l t o l' ↔
      ∃ ends u v, t = u ++ v ∧ Overlap jobs ends u ∧ Goes (f ends) l v o l' := by
  have h : (Action.pool jobs >>= f).run.run l =
      .ask (.pool jobs) fun ends => (f ends).run.run l := rfl
  rw [Goes, h]
  exact Program.shows_pool_iff

end Suite
end Rehearsal
