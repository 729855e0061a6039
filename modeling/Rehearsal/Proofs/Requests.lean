import Rehearsal.Proofs.Effect

/-! What programs ask for, as long as they are answered as is expected. A program keeps to some requests,
up to one after which nothing more is said of it, or up to its end. Of an action the same is said for
every state that it begins in, and of the value or the error that it comes to. -/

namespace Rehearsal
set_option autoImplicit false

/-- What is agreed on with those who are asked: what is asked for, what is answered, and which errors may
come of it. -/
structure Terms {R : Type} (Answer : R → Type) (ε : Type) where
  asks : R → Prop
  answers : (r : R) → Answer r → Prop
  raises : ε → Prop

/-- Nothing is agreed on but what is asked for. -/
def Terms.asking {R : Type} {Answer : R → Type} {ε : Type} (P : R → Prop) : Terms Answer ε :=
  ⟨P, fun _ _ => True, fun _ => True⟩

namespace Program
variable {R : Type} {Answer : R → Type} {Mark : Type} {α β : Type} {P S : R → Prop}
  {A : (r : R) → Answer r → Prop} {Q : α → Prop}

/-- A program asks for what is allowed only, until it asks for what it stops at. Where it does not come
to that it ends in a value that is as is said. -/
inductive Asks (P S : R → Prop) (A : (r : R) → Answer r → Prop) (Q : α → Prop) :
    Program Answer α → Prop where
  | done {a : α} : Q a → Asks P S A Q (.done a)
  | stop {r : R} {next : Answer r → Program Answer α} : S r → Asks P S A Q (.ask r next)
  | ask {r : R} {next : Answer r → Program Answer α} :
      P r → (∀ x, A r x → Asks P S A Q (next x)) → Asks P S A Q (.ask r next)

namespace Asks

theorem request {r : R} {Q : Answer r → Prop} (hr : P r) (hQ : ∀ x, A r x → Q x) :
    Asks P S A Q (Program.request r) :=
  .ask hr fun x hx => .done (hQ x hx)

theorem bind {p : Program Answer α} {f : α → Program Answer β} {Q' : β → Prop}
    (hp : Asks P S A Q p) (hf : ∀ a, Q a → Asks P S A Q' (f a)) : Asks P S A Q' (p >>= f) := by
  induction hp with
  | done ha => exact hf _ ha
  | stop hr => exact .stop hr
  | ask hr _ ih => exact .ask hr ih

theorem imp {p : Program Answer α} {S' : R → Prop} {Q' : α → Prop} (hp : Asks P S A Q p)
    (hS : ∀ r, S r → S' r) (hQ : ∀ a, Q a → Q' a) : Asks P S' A Q' p := by
  induction hp with
  | done ha => exact .done (hQ _ ha)
  | stop hr => exact .stop (hS _ hr)
  | ask hr _ ih => exact .ask hr ih

end Asks
end Program

open Program

/-- An action keeps to the terms whatever state it begins in, and comes to a value as is said. -/
def Yields {R : Type} {Answer : R → Type} {ε σ α : Type} (T : Terms Answer ε) (S : R → Prop)
    (Q : α → Prop) (x : ExceptT ε (StateT σ (Program Answer)) α) : Prop :=
  ∀ s, Asks T.asks S T.answers
    (fun p => (∀ a, p.1 = .ok a → Q a) ∧ ∀ e, p.1 = .error e → T.raises e) (x.run.run s)

/-- An action keeps to the terms whatever state it begins in. -/
def Confined {R : Type} {Answer : R → Type} {ε σ α : Type} (T : Terms Answer ε)
    (x : ExceptT ε (StateT σ (Program Answer)) α) : Prop :=
  Yields T (fun _ => False) (fun _ => True) x

section Yields
variable {R : Type} {Answer : R → Type} {Mark ε σ α β : Type} {T : Terms Answer ε} {S : R → Prop}
  {Q : α → Prop} {Q' : β → Prop}

theorem yields_pure {a : α} (ha : Q a) :
    Yields T S Q (pure a : ExceptT ε (StateT σ (Program Answer)) α) :=
  fun _ => .done ⟨fun _ hb => Except.ok.inj hb ▸ ha, nofun⟩

theorem yields_throw {e : ε} (he : T.raises e) :
    Yields T S Q (throw e : ExceptT ε (StateT σ (Program Answer)) α) :=
  fun _ => .done ⟨nofun, fun _ hf => Except.error.inj hf ▸ he⟩

theorem yields_bind {x : ExceptT ε (StateT σ (Program Answer)) α}
    {f : α → ExceptT ε (StateT σ (Program Answer)) β} (hx : Yields T S Q x)
    (hf : ∀ a, Q a → Yields T S Q' (f a)) : Yields T S Q' (x >>= f) := by
  intro s
  rw [ExceptT.run_bind, StateT.run_bind]
  refine (hx s).bind fun r hr => ?_
  rcases r with ⟨e | a, s₁⟩
  · exact .done ⟨nofun, fun _ he => Except.error.inj he ▸ hr.2 e rfl⟩
  · exact hf a (hr.1 a rfl) s₁

theorem Confined.yields {x : ExceptT ε (StateT σ (Program Answer)) α} (hx : Confined T x) :
    Yields T S (fun _ => True) x :=
  fun s => (hx s).imp (fun _ => False.elim) fun _ hp => hp

theorem yields_lift {p : Program Answer α} (hp : Asks T.asks S T.answers Q p) :
    Yields T S Q (ExceptT.lift (StateT.lift p) : ExceptT ε (StateT σ (Program Answer)) α) := by
  intro s
  simp only [ExceptT.run_lift, StateT.run_map, StateT.run_lift, map_bind]
  exact hp.bind fun a ha => .done ⟨fun _ hb => Except.ok.inj hb ▸ ha, nofun⟩

/-- Whoever runs an action to its end is told of an error that is within the terms. -/
theorem yields_observe {x : ExceptT ε (StateT σ (Program Answer)) α} (hx : Yields T S Q x) :
    Yields T S (fun r => ∀ e, r = .error e → T.raises e)
      (ExceptT.mk (x.run >>= fun r => pure (.ok r)) :
        ExceptT ε (StateT σ (Program Answer)) (Except ε α)) :=
  fun s => (hx s).bind fun _ hp => .done ⟨fun _ hr => Except.ok.inj hr ▸ hp.2, nofun⟩

theorem confined_get : Confined T (get : ExceptT ε (StateT σ (Program Answer)) σ) :=
  fun _ => .done ⟨fun _ _ => trivial, nofun⟩

theorem confined_modify (g : σ → σ) :
    Confined T (modify g : ExceptT ε (StateT σ (Program Answer)) PUnit) :=
  fun _ => .done ⟨fun _ _ => trivial, nofun⟩

theorem confined_pure (a : α) : Confined T (pure a : ExceptT ε (StateT σ (Program Answer)) α) :=
  yields_pure trivial

theorem confined_bind {x : ExceptT ε (StateT σ (Program Answer)) α}
    {f : α → ExceptT ε (StateT σ (Program Answer)) β} (hx : Confined T x)
    (hf : ∀ a, Confined T (f a)) : Confined T (x >>= f) :=
  yields_bind hx fun a _ => hf a

/-- A run that is answered as is expected asks for what is allowed, and comes to a value as is said. -/
theorem Program.Asks.value_of_runs {p : Program Answer α} {t : List (Moment Answer Mark)} {a : α}
    (hp : Asks T.asks (fun _ => False) T.answers Q p) (h : Runs p t a)
    (ht : ∀ m ∈ t, T.answers m.request m.answer) : (∀ m ∈ t, T.asks m.request) ∧ Q a := by
  induction h with
  | done a =>
    cases hp with
    | done ha => exact ⟨List.forall_mem_nil _, ha⟩
  | ask x m _ ih =>
    obtain ⟨hx, hrest⟩ := List.forall_mem_cons.1 ht
    cases hp with
    | stop hr => exact hr.elim
    | ask hr hnext =>
      obtain ⟨hasked, ha⟩ := ih (hnext x hx) hrest
      exact ⟨List.forall_mem_cons.2 ⟨hr, hasked⟩, ha⟩

theorem Program.Asks.of_runs {p : Program Answer α} {t : List (Moment Answer Mark)} {a : α}
    (hp : Asks T.asks (fun _ => False) T.answers Q p) (h : Runs p t a)
    (ht : ∀ m ∈ t, T.answers m.request m.answer) : ∀ m ∈ t, T.asks m.request :=
  (hp.value_of_runs h ht).1

theorem Confined.of_ends {x : ExceptT ε (StateT σ (Program Answer)) α} {s s' : σ}
    {t : List (Moment Answer Mark)} {o : Except ε α} (hx : Confined T x) (h : Ends x s t o s')
    (ht : ∀ m ∈ t, T.answers m.request m.answer) : ∀ m ∈ t, T.asks m.request :=
  (hx s).of_runs h ht

end Yields

/-- An action that begins in a state of a kind, and one of which more is said, keeps to the terms. It
leaves a state of that kind however it ends, and where it comes to a value that is said of both. -/
def Secures {R : Type} {Answer : R → Type} {ε σ α : Type} (T : Terms Answer ε) (I P : σ → Prop)
    (Q : α → σ → Prop) (x : ExceptT ε (StateT σ (Program Answer)) α) : Prop :=
  ∀ s, I s → P s → Asks T.asks (fun _ => False) T.answers
    (fun p => I p.2 ∧ ∀ a, p.1 = .ok a → Q a p.2) (x.run.run s)

/-- An action keeps to the terms, and to states of a kind. -/
def Minds {R : Type} {Answer : R → Type} {ε σ α : Type} (T : Terms Answer ε) (I : σ → Prop)
    (x : ExceptT ε (StateT σ (Program Answer)) α) : Prop :=
  Secures T I (fun _ => True) (fun _ _ => True) x

section Secures
variable {R : Type} {Answer : R → Type} {ε σ α β : Type} {T : Terms Answer ε} {I P P' : σ → Prop}
  {Q Q₁ : α → σ → Prop} {Q' : β → σ → Prop}

theorem secures_pure {a : α} (h : ∀ s, I s → P s → Q a s) :
    Secures T I P Q (pure a : ExceptT ε (StateT σ (Program Answer)) α) :=
  fun s hI hP => .done ⟨hI, fun _ hb => Except.ok.inj hb ▸ h s hI hP⟩

theorem secures_throw {e : ε} :
    Secures T I P Q (throw e : ExceptT ε (StateT σ (Program Answer)) α) :=
  fun _ hI _ => .done ⟨hI, nofun⟩

theorem secures_bind {x : ExceptT ε (StateT σ (Program Answer)) α}
    {f : α → ExceptT ε (StateT σ (Program Answer)) β} (hx : Secures T I P Q x)
    (hf : ∀ a, Secures T I (Q a) Q' (f a)) : Secures T I P Q' (x >>= f) := by
  intro s hI hP
  rw [ExceptT.run_bind, StateT.run_bind]
  refine (hx s hI hP).bind fun r hr => ?_
  rcases r with ⟨e | a, s₁⟩
  · exact .done ⟨hr.1, nofun⟩
  · exact hf a s₁ hr.1 (hr.2 a rfl)

theorem Secures.imp {x : ExceptT ε (StateT σ (Program Answer)) α} (hx : Secures T I P Q x)
    (hP : ∀ s, P' s → P s) (hQ : ∀ a s, I s → Q a s → Q₁ a s) : Secures T I P' Q₁ x :=
  fun s hI hs => (hx s hI (hP s hs)).imp (fun _ => id) fun p hp =>
    ⟨hp.1, fun a ha => hQ a p.2 hp.1 (hp.2 a ha)⟩

theorem Minds.imp {x : ExceptT ε (StateT σ (Program Answer)) α} (hx : Minds T I x) :
    Secures T I P (fun _ _ => True) x := Secures.imp hx (fun _ _ => trivial) fun _ _ _ => id

theorem minds_pure (a : α) : Minds T I (pure a : ExceptT ε (StateT σ (Program Answer)) α) :=
  secures_pure fun _ _ _ => trivial

theorem minds_bind {x : ExceptT ε (StateT σ (Program Answer)) α}
    {f : α → ExceptT ε (StateT σ (Program Answer)) β} (hx : Minds T I x)
    (hf : ∀ a, Minds T I (f a)) : Minds T I (x >>= f) := secures_bind hx hf

/-- What follows from what is known of the state may be assumed of what comes after. -/
theorem secures_of_known {p : Prop} {x : ExceptT ε (StateT σ (Program Answer)) α}
    (hp : ∀ s, I s → P s → p) (hx : p → Secures T I P Q x) : Secures T I P Q x :=
  fun s hI hs => hx (hp s hI hs) s hI hs

theorem secures_bind_value {q : α → Prop} {x : ExceptT ε (StateT σ (Program Answer)) α}
    {f : α → ExceptT ε (StateT σ (Program Answer)) β}
    (hx : Secures T I (fun _ => True) (fun a _ => q a) x)
    (hf : ∀ a, q a → Secures T I (fun _ => True) Q' (f a)) :
    Secures T I (fun _ => True) Q' (x >>= f) :=
  secures_bind hx fun a => secures_of_known (fun _ _ => id) fun ha =>
    (hf a ha).imp (fun _ _ => trivial) fun _ _ _ => id

theorem secures_get : Secures T I P (fun a s => a = s ∧ P s)
    (get : ExceptT ε (StateT σ (Program Answer)) σ) :=
  fun _ hI hP => .done ⟨hI, fun _ ha => ⟨(Except.ok.inj ha).symm, hP⟩⟩

theorem secures_modify {g : σ → σ} {Q : PUnit → σ → Prop} (h : ∀ s, I s → P s → I (g s) ∧ Q ⟨⟩ (g s)) :
    Secures T I P Q (modify g : ExceptT ε (StateT σ (Program Answer)) PUnit) :=
  fun s hI hP => .done ⟨(h s hI hP).1, fun _ _ => (h s hI hP).2⟩

theorem secures_lift {p : Program Answer α} {q : α → Prop}
    (hp : Asks T.asks (fun _ => False) T.answers q p) : Secures T I P (fun a s => q a ∧ P s)
      (ExceptT.lift (StateT.lift p) : ExceptT ε (StateT σ (Program Answer)) α) := by
  intro s hI hP
  simp only [ExceptT.run_lift, StateT.run_map, StateT.run_lift, map_bind]
  exact hp.bind fun a ha => .done ⟨hI, fun _ hb => Except.ok.inj hb ▸ ⟨ha, hP⟩⟩

theorem secures_observe {x : ExceptT ε (StateT σ (Program Answer)) α} (hx : Secures T I P Q x) :
    Secures T I P (fun r s => ∀ a, r = .ok a → Q a s)
      (ExceptT.mk (x.run >>= fun r => pure (.ok r)) :
        ExceptT ε (StateT σ (Program Answer)) (Except ε α)) :=
  fun s hI hP => (hx s hI hP).bind fun _ hp => .done ⟨hp.1, fun _ hr => Except.ok.inj hr ▸ hp.2⟩

end Secures

namespace Effect
variable {σ α : Type} {T : Terms Request.Answer Fault} {S : Request → Prop} {Q : α → Prop}

theorem yields_perform {r : Request} {Q : r.Answer → Prop} (hr : T.asks r)
    (hQ : ∀ x, T.answers r x → Q x) : Yields T S Q (perform r : Effect σ r.Answer) :=
  yields_lift (.request hr hQ)

theorem confined_perform {r : Request} (hr : T.asks r) : Confined T (perform r : Effect σ r.Answer) :=
  yields_perform hr fun _ _ => trivial

theorem yields_proceed {f : Option Fault} {Q : Unit → Prop} (hQ : f = none → Q ())
    (hf : ∀ e, f = some e → T.raises e) : Yields T S Q (proceed f : Effect σ Unit) := by
  cases f with
  | none => exact yields_pure (hQ rfl)
  | some f => exact yields_throw (hf f rfl)

theorem yields_settle {r : Except Fault α} (hQ : ∀ a, r = .ok a → Q a)
    (hr : ∀ e, r = .error e → T.raises e) : Yields T S Q (settle r : Effect σ α) := by
  cases r with
  | ok a => exact yields_pure (hQ a rfl)
  | error f => exact yields_throw (hr f rfl)

theorem secures_perform {I P : σ → Prop} {r : Request} (hr : T.asks r) :
    Secures T I P (fun _ => P) (perform r : Effect σ r.Answer) :=
  (secures_lift (.request (Q := fun _ => True) hr fun _ _ => trivial)).imp (fun _ => id) fun _ _ _ h => h.2

theorem secures_proceed {I P : σ → Prop} (f : Option Fault) :
    Secures T I P (fun _ => P) (proceed f : Effect σ Unit) := by
  cases f with
  | none => exact secures_pure fun _ _ => id
  | some f => exact secures_throw

theorem secures_settle {I P : σ → Prop} (r : Except Fault α) :
    Secures T I P (fun _ => P) (settle r : Effect σ α) := by
  cases r with
  | ok a => exact secures_pure fun _ _ => id
  | error f => exact secures_throw

theorem secures_log {I P : σ → Prop} (hT : ∀ m, T.asks (.log m)) {logger : Logger} {level : LogLevel}
    {message : String} {fields : List (String × Datum)} :
    Secures T I P (fun _ => P) (log logger level message fields : Effect σ Unit) := by
  unfold log
  split
  · exact secures_bind (secures_perform (hT _)) fun f => secures_proceed f
  · exact secures_pure fun _ _ => id

end Effect
end Rehearsal
