import Rehearsal.Proofs.Trace
import Rehearsal.Run.Request

/-! How actions end. An action keeps a state and may be cut short by an error; `Ends` relates the
state it began with to its trace, its outcome and the state it leaves. What is kept by every step of
an action is kept by the whole of it: `Upholds` says so once for all relations that compose. -/

namespace Rehearsal
set_option autoImplicit false

variable {R : Type} {Answer : R → Type} {Mark ε σ α β : Type}

def Ends (x : ExceptT ε (StateT σ (Program Answer)) α) (s : σ) (t : List (Moment Answer Mark))
    (o : Except ε α) (s' : σ) : Prop :=
  Program.Runs (x.run.run s) t (o, s')

section Inversion
variable {t : List (Moment Answer Mark)} {s s' : σ}

theorem ends_of_run_eq_done {x : ExceptT ε (StateT σ (Program Answer)) α} {o o' : Except ε α}
    {s₁ : σ} (h : x.run.run s = .done (o', s₁)) :
    Ends x s t o s' ↔ t = [] ∧ o = o' ∧ s' = s₁ := by
  rw [Ends, h, Program.runs_done_iff, Prod.mk.injEq]

theorem ends_pure_iff {a : α} {o : Except ε α} :
    Ends (pure a : ExceptT ε (StateT σ (Program Answer)) α) s t o s' ↔
      t = [] ∧ o = .ok a ∧ s' = s :=
  ends_of_run_eq_done rfl

theorem ends_throw_iff {e : ε} {o : Except ε α} :
    Ends (throw e : ExceptT ε (StateT σ (Program Answer)) α) s t o s' ↔
      t = [] ∧ o = .error e ∧ s' = s :=
  ends_of_run_eq_done rfl

theorem ends_get_iff {o : Except ε σ} :
    Ends (get : ExceptT ε (StateT σ (Program Answer)) σ) s t o s' ↔
      t = [] ∧ o = .ok s ∧ s' = s :=
  ends_of_run_eq_done rfl

theorem ends_lift_iff {p : Program Answer α} {o : Except ε α} :
    Ends (ExceptT.lift (StateT.lift p) : ExceptT ε (StateT σ (Program Answer)) α) s t o s' ↔
      s' = s ∧ ∃ a, o = .ok a ∧ p.Runs t a := by
  have h : (ExceptT.lift (StateT.lift p) : ExceptT ε (StateT σ (Program Answer)) α).run.run s =
      p >>= fun a => .done (.ok a, s) := by
    simp only [ExceptT.run_lift, StateT.run_map, StateT.run_lift, map_bind]
    rfl
  rw [Ends, h, Program.runs_bind_iff]
  constructor
  · rintro ⟨u, v, a, rfl, hp, hd⟩
    obtain ⟨rfl, he⟩ := Program.runs_done_iff.1 hd
    obtain ⟨rfl, rfl⟩ := Prod.mk.inj he
    rw [List.append_nil]
    exact ⟨rfl, a, rfl, hp⟩
  · rintro ⟨rfl, a, rfl, hp⟩
    exact ⟨t, [], a, (List.append_nil t).symm, hp, .done _⟩

/-- A composed action ends with its second part, unless its first part is cut short. -/
theorem ends_bind_iff {x : ExceptT ε (StateT σ (Program Answer)) α}
    {f : α → ExceptT ε (StateT σ (Program Answer)) β} {o : Except ε β} :
    Ends (x >>= f) s t o s' ↔
      (∃ u v a s₁, t = u ++ v ∧ Ends x s u (.ok a) s₁ ∧ Ends (f a) s₁ v o s') ∨
        ∃ e, o = .error e ∧ Ends x s t (.error e) s' := by
  have h : (x >>= f).run.run s = x.run.run s >>= fun r =>
      match r.1 with
      | .ok a => (f a).run.run r.2
      | .error e => .done (.error e, r.2) := by
    rw [ExceptT.run_bind, StateT.run_bind]
    congr 1
    funext r
    rcases r with ⟨_ | _, _⟩ <;> rfl
  rw [Ends, h, Program.runs_bind_iff]
  constructor
  · rintro ⟨u, v, ⟨o₁, s₁⟩, rfl, hx, hf⟩
    cases o₁ with
    | ok a => exact .inl ⟨u, v, a, s₁, rfl, hx, hf⟩
    | error e =>
      obtain ⟨rfl, he⟩ := Program.runs_done_iff.1 hf
      obtain ⟨rfl, rfl⟩ := Prod.mk.inj he
      rw [List.append_nil]
      exact .inr ⟨e, rfl, hx⟩
  · rintro (⟨u, v, a, s₁, rfl, hx, hf⟩ | ⟨e, rfl, hx⟩)
    · exact ⟨u, v, (.ok a, s₁), rfl, hx, hf⟩
    · exact ⟨t, [], (.error e, s'), (List.append_nil t).symm, hx, .done _⟩

theorem ends_bind_ok_iff {x : ExceptT ε (StateT σ (Program Answer)) α}
    {f : α → ExceptT ε (StateT σ (Program Answer)) β} {b : β} :
    Ends (x >>= f) s t (.ok b) s' ↔
      ∃ u v a s₁, t = u ++ v ∧ Ends x s u (.ok a) s₁ ∧ Ends (f a) s₁ v (.ok b) s' := by
  rw [ends_bind_iff]
  constructor
  · rintro (h | ⟨e, he, _⟩)
    · exact h
    · cases he
  · exact .inl

theorem ends_bind_pure_iff {x : ExceptT ε (StateT σ (Program Answer)) α} {f : α → β}
    {o : Except ε β} :
    Ends (x >>= fun a => pure (f a)) s t o s' ↔ ∃ r, o = r.map f ∧ Ends x s t r s' := by
  rw [ends_bind_iff]
  constructor
  · rintro (⟨u, v, a, s₁, rfl, hx, hp⟩ | ⟨e, rfl, hx⟩)
    · obtain ⟨rfl, rfl, rfl⟩ := ends_pure_iff.1 hp
      rw [List.append_nil]
      exact ⟨.ok a, rfl, hx⟩
    · exact ⟨.error e, rfl, hx⟩
  · rintro ⟨r, rfl, hx⟩
    cases r with
    | ok a => exact .inl ⟨t, [], a, s', (List.append_nil t).symm, hx, ends_pure_iff.2 ⟨rfl, rfl, rfl⟩⟩
    | error e => exact .inr ⟨e, rfl, hx⟩

theorem ends_bind_pure_ok_iff {x : ExceptT ε (StateT σ (Program Answer)) α} {f : α → β} {b : β} :
    Ends (x >>= fun a => pure (f a)) s t (.ok b) s' ↔ ∃ a, b = f a ∧ Ends x s t (.ok a) s' := by
  rw [ends_bind_pure_iff]
  constructor
  · rintro ⟨r, hr, hx⟩
    cases r with
    | ok a => exact ⟨a, Except.ok.inj hr, hx⟩
    | error e => cases hr
  · rintro ⟨a, rfl, hx⟩
    exact ⟨.ok a, rfl, hx⟩

theorem ends_get_bind_iff {f : σ → ExceptT ε (StateT σ (Program Answer)) β} {o : Except ε β} :
    Ends (get >>= f) s t o s' ↔ Ends (f s) s t o s' := by
  have h : (get >>= f).run.run s = (f s).run.run s := rfl
  rw [Ends, h, Ends]

theorem ends_modify_bind_iff {g : σ → σ} {f : PUnit → ExceptT ε (StateT σ (Program Answer)) β}
    {o : Except ε β} :
    Ends (modify g >>= f) s t o s' ↔ Ends (f ⟨⟩) (g s) t o s' := by
  have h : (modify g >>= f).run.run s = (f ⟨⟩).run.run (g s) := rfl
  rw [Ends, h, Ends]

end Inversion

def errorIn : Except ε α → Option ε
  | .ok _ => none
  | .error e => some e

@[simp] theorem errorIn_ok (a : α) : errorIn (.ok a : Except ε α) = none := rfl

@[simp] theorem errorIn_error (e : ε) : errorIn (.error e : Except ε α) = some e := rfl

theorem errorIn_map (r : Except ε α) (f : α → β) : errorIn (r.map f) = errorIn r := by
  cases r <;> rfl

/-- Relations of a state, a trace, an error and a later state that hold of two actions in sequence
when they hold of both. -/
structure Sequential (K : σ → List (Moment Answer Mark) → Option ε → σ → Prop) : Prop where
  refl : ∀ s, K s [] none s
  trans : ∀ {s s₁ s₂ t u e}, K s t none s₁ → K s₁ u e s₂ → K s (t ++ u) e s₂

/-- Every end of an action stands in a relation to its beginning. -/
def Upholds (K : σ → List (Moment Answer Mark) → Option ε → σ → Prop)
    (x : ExceptT ε (StateT σ (Program Answer)) α) : Prop :=
  ∀ ⦃s t o s'⦄, Ends x s t o s' → K s t (errorIn o) s'

section Upholds
variable {K : σ → List (Moment Answer Mark) → Option ε → σ → Prop} (hK : Sequential K)
include hK

theorem upholds_pure (a : α) : Upholds K (pure a : ExceptT ε (StateT σ (Program Answer)) α) := by
  intro s t o s' h
  obtain ⟨rfl, rfl, rfl⟩ := ends_pure_iff.1 h
  exact hK.refl _

theorem upholds_get : Upholds K (get : ExceptT ε (StateT σ (Program Answer)) σ) := by
  intro s t o s' h
  obtain ⟨rfl, rfl, rfl⟩ := ends_get_iff.1 h
  exact hK.refl _

theorem upholds_bind {x : ExceptT ε (StateT σ (Program Answer)) α}
    {f : α → ExceptT ε (StateT σ (Program Answer)) β} (hx : Upholds K x)
    (hf : ∀ a, Upholds K (f a)) : Upholds K (x >>= f) := by
  intro s t o s' h
  rcases ends_bind_iff.1 h with ⟨u, v, a, s₁, rfl, h₁, h₂⟩ | ⟨e, rfl, h₁⟩
  · exact hK.trans (hx h₁) (hf a h₂)
  · exact hx h₁

end Upholds

namespace Effect
variable {Mark : Type} {t : List (Moment Request.Answer Mark)} {s s' : σ}

theorem ends_perform_iff {r : Request} {o : Except Fault r.Answer} :
    Ends (perform r) s t o s' ↔ s' = s ∧ ∃ x m, o = .ok x ∧ t = [⟨r, x, m⟩] := by
  rw [perform, ends_lift_iff]
  constructor
  · rintro ⟨rfl, x, rfl, h⟩
    obtain ⟨m, rfl⟩ := Program.runs_request_iff.1 h
    exact ⟨rfl, x, m, rfl, rfl⟩
  · rintro ⟨rfl, x, m, rfl, rfl⟩
    exact ⟨rfl, x, rfl, Program.runs_request_iff.2 ⟨m, rfl⟩⟩

theorem ends_proceed_iff {f : Option Fault} {o : Except Fault Unit} :
    Ends (proceed f) s t o s' ↔ t = [] ∧ s' = s ∧ errorIn o = f := by
  cases f with
  | none =>
    rw [proceed, ends_pure_iff]
    cases o <;> simp
  | some f =>
    rw [proceed, ends_throw_iff]
    cases o <;> simp [and_comm]

theorem ends_settle_iff {r o : Except Fault α} :
    Ends (settle r) s t o s' ↔ t = [] ∧ o = r ∧ s' = s := by
  cases r with
  | ok a => exact ends_pure_iff
  | error f => exact ends_throw_iff

theorem ends_aborted_iff {o : Except Fault Bool} :
    Ends aborted s t o s' ↔ s' = s ∧ ∃ (b : Bool) (m : Mark), o = .ok b ∧ t = [⟨.aborted, b, m⟩] :=
  ends_perform_iff

theorem ends_perform_bind_iff {r : Request} {f : r.Answer → Effect σ β} {o : Except Fault β} :
    Ends (perform r >>= f) s t o s' ↔ ∃ x m u, t = ⟨r, x, m⟩ :: u ∧ Ends (f x) s u o s' := by
  have h : (perform r >>= f).run.run s = .ask r fun x => (f x).run.run s := rfl
  rw [Ends, h, Program.runs_ask_iff]
  rfl

theorem ends_perform_proceed_iff {r : Request} {g : r.Answer → Option Fault} {o : Except Fault Unit} :
    Ends (perform r >>= fun x => proceed (g x)) s t o s' ↔
      s' = s ∧ ∃ x m, t = [⟨r, x, m⟩] ∧ errorIn o = g x := by
  rw [ends_perform_bind_iff]
  constructor
  · rintro ⟨x, m, u, rfl, h⟩
    obtain ⟨rfl, rfl, ho⟩ := ends_proceed_iff.1 h
    exact ⟨rfl, x, m, rfl, ho⟩
  · rintro ⟨rfl, x, m, rfl, ho⟩
    exact ⟨x, m, [], rfl, ends_proceed_iff.2 ⟨rfl, rfl, ho⟩⟩

theorem ends_observe_iff {x : Effect σ α} {o : Except Fault (Except Fault α)} :
    Ends (observe x) s t o s' ↔ ∃ r, o = .ok r ∧ Ends x s t r s' := by
  have h : (observe x).run.run s = x.run.run s >>= fun r => .done (.ok r.1, r.2) := rfl
  rw [Ends, h, Program.runs_bind_iff]
  constructor
  · rintro ⟨u, v, ⟨r, s₁⟩, rfl, hx, hd⟩
    obtain ⟨rfl, he⟩ := Program.runs_done_iff.1 hd
    obtain ⟨rfl, rfl⟩ := Prod.mk.inj he
    rw [List.append_nil]
    exact ⟨r, rfl, hx⟩
  · rintro ⟨r, rfl, hx⟩
    exact ⟨t, [], (r, s'), (List.append_nil t).symm, hx, .done _⟩

theorem ends_observe_bind_iff {x : Effect σ α} {f : Except Fault α → Effect σ β}
    {o : Except Fault β} :
    Ends (observe x >>= f) s t o s' ↔
      ∃ u v r s₁, t = u ++ v ∧ Ends x s u r s₁ ∧ Ends (f r) s₁ v o s' := by
  rw [ends_bind_iff]
  constructor
  · rintro (⟨u, v, r, s₁, rfl, hx, hf⟩ | ⟨e, rfl, hx⟩)
    · obtain ⟨_, hr, hx⟩ := ends_observe_iff.1 hx
      cases hr
      exact ⟨u, v, r, s₁, rfl, hx, hf⟩
    · obtain ⟨_, hr, _⟩ := ends_observe_iff.1 hx
      cases hr
  · rintro ⟨u, v, r, s₁, rfl, hx, hf⟩
    exact .inl ⟨u, v, r, s₁, rfl, ends_observe_iff.2 ⟨r, rfl, hx⟩, hf⟩

theorem ends_settle_bind_iff {r : Except Fault α} {f : α → Effect σ β} {o : Except Fault β} :
    Ends (settle r >>= f) s t o s' ↔ (∃ a, r = .ok a ∧ Ends (f a) s t o s') ∨
      ∃ e, r = .error e ∧ t = [] ∧ o = .error e ∧ s' = s := by
  cases r with
  | ok a =>
    have h : (settle (.ok a) >>= f).run.run s = (f a).run.run s := rfl
    rw [Ends, h]
    constructor
    · exact fun hf => .inl ⟨a, rfl, hf⟩
    · rintro (⟨_, ha, hf⟩ | ⟨_, he, _⟩)
      · exact Except.ok.inj ha ▸ hf
      · cases he
  | error e =>
    have h : (settle (.error e) >>= f).run.run s = .done (.error e, s) := rfl
    rw [ends_of_run_eq_done h]
    constructor
    · exact fun hd => .inr ⟨e, rfl, hd⟩
    · rintro (⟨_, ha, _⟩ | ⟨_, he, hd⟩)
      · cases ha
      · exact Except.error.inj he ▸ hd

theorem upholds_settle_bind {K : σ → List (Moment Request.Answer Mark) → Option Fault → σ → Prop}
    {r : Except Fault α} {f : α → Effect σ β} (he : ∀ e, r = .error e → ∀ s, K s [] (some e) s)
    (hf : ∀ a, r = .ok a → Upholds K (f a)) : Upholds K (settle r >>= f) := by
  intro s t o s' h
  rcases ends_settle_bind_iff.1 h with ⟨a, rfl, h⟩ | ⟨e, rfl, rfl, rfl, rfl⟩
  · exact hf a rfl h
  · exact he e rfl _

end Effect
end Rehearsal
