import Mathlib.Data.List.Forall2

/-! Sequences of computations that may fail: they succeed as a whole when each of them does. -/

namespace Rehearsal
set_option autoImplicit false

variable {ε α β : Type}

theorem except_ok_bind (a : α) (f : α → Except ε β) : (Except.ok a >>= f) = f a := rfl

theorem except_bind_eq_ok_iff {x : Except ε α} {f : α → Except ε β} {b : β} :
    (x >>= f) = .ok b ↔ ∃ a, x = .ok a ∧ f a = .ok b := by
  cases x with
  | ok a => simp [bind, Except.bind]
  | error e => simp [bind, Except.bind]

theorem except_bind_eq_error_iff {x : Except ε α} {f : α → Except ε β} {e : ε} :
    (x >>= f) = .error e ↔ x = .error e ∨ ∃ a, x = .ok a ∧ f a = .error e := by
  cases x with
  | ok a => simp [bind, Except.bind]
  | error e => simp [bind, Except.bind]

theorem exists_of_toBool {x : Except ε α} (h : x.toBool = true) : ∃ a, x = .ok a := by
  cases x with
  | ok a => exact ⟨a, rfl⟩
  | error e => cases h

theorem exists_ok_of_any {p : α → Bool} {x : Except ε α} (h : x.toOption.any p = true) :
    ∃ a, x = .ok a ∧ p a = true := by
  cases x with
  | ok a => exact ⟨a, rfl, h⟩
  | error e => cases h

theorem mapM_congr {f g : α → Except ε β} {as : List α} (h : ∀ a ∈ as, f a = g a) :
    as.mapM f = as.mapM g := by
  induction as with
  | nil => rfl
  | cons a as ih =>
    obtain ⟨ha, hrest⟩ := List.forall_mem_cons.1 h
    rw [List.mapM_cons, List.mapM_cons, ha, ih hrest]

/-- A sequence fails at the first of its computations that fails. -/
theorem mapM_eq_error_iff {f : α → Except ε β} {as : List α} {e : ε} :
    as.mapM f = .error e ↔
      ∃ u a v, as = u ++ a :: v ∧ (∀ b ∈ u, ∃ c, f b = .ok c) ∧ f a = .error e := by
  induction as with
  | nil => simp [pure, Except.pure]
  | cons a as ih =>
    rw [List.mapM_cons, except_bind_eq_error_iff]
    constructor
    · rintro (ha | ⟨b, hb, h⟩)
      · exact ⟨[], a, as, rfl, nofun, ha⟩
      · rcases except_bind_eq_error_iff.1 h with hr | ⟨_, _, h⟩
        · obtain ⟨u, a', v, rfl, hu, ha'⟩ := ih.1 hr
          exact ⟨a :: u, a', v, rfl, List.forall_mem_cons.2 ⟨⟨b, hb⟩, hu⟩, ha'⟩
        · cases h
    · rintro ⟨u, a', v, heq, hu, ha'⟩
      cases u with
      | nil =>
        obtain ⟨rfl, _⟩ := List.cons.inj heq
        exact .inl ha'
      | cons b u =>
        obtain ⟨rfl, rfl⟩ := List.cons.inj heq
        obtain ⟨⟨c, hc⟩, hu⟩ := List.forall_mem_cons.1 hu
        exact .inr ⟨c, hc, except_bind_eq_error_iff.2 (.inl (ih.2 ⟨u, a', v, rfl, hu, ha'⟩))⟩

theorem exists_of_mapM_eq_error {f : α → Except ε β} {as : List α} {e : ε}
    (h : as.mapM f = .error e) : ∃ a ∈ as, f a = .error e := by
  obtain ⟨u, a, v, rfl, _, ha⟩ := mapM_eq_error_iff.1 h
  exact ⟨a, List.mem_append_right u List.mem_cons_self, ha⟩

/-- Where a test tells which computations succeed, it tells whether the sequence does. -/
theorem mapM_ends {f : α → Except ε β} {p : α → Bool} {E : ε → Prop}
    (h : ∀ a, p a = true ∧ (∃ b, f a = .ok b) ∨ p a = false ∧ ∃ e, f a = .error e ∧ E e)
    (as : List α) :
    as.all p = true ∧ (∃ bs, as.mapM f = .ok bs) ∨
      as.all p = false ∧ ∃ e, as.mapM f = .error e ∧ E e := by
  induction as with
  | nil => exact .inl ⟨rfl, [], rfl⟩
  | cons a as ih =>
    rw [List.all_cons, List.mapM_cons]
    rcases h a with ⟨hp, b, hb⟩ | ⟨hp, e, he, hE⟩
    · rw [hp, hb]
      rcases ih with ⟨hall, bs, hbs⟩ | ⟨hall, e, he, hE⟩
      · exact .inl ⟨hall, b :: bs, except_bind_eq_ok_iff.2 ⟨b, rfl, by rw [hbs]; rfl⟩⟩
      · exact .inr ⟨hall, e, except_bind_eq_error_iff.2 (.inr ⟨b, rfl, by rw [he]; rfl⟩), hE⟩
    · rw [hp, he]
      exact .inr ⟨rfl, e, rfl, hE⟩

theorem exists_left_of_forall₂ {R : α → β → Prop} {as : List α} {bs : List β}
    (h : List.Forall₂ R as bs) {b : β} (hb : b ∈ bs) : ∃ a ∈ as, R a b := by
  induction h with
  | nil => cases hb
  | @cons a b' as bs hab _ ih =>
    rcases List.mem_cons.1 hb with rfl | hb
    · exact ⟨a, List.mem_cons_self, hab⟩
    · obtain ⟨a', ha', hab'⟩ := ih hb
      exact ⟨a', List.mem_cons_of_mem a ha', hab'⟩

theorem pairwise_zipIdx (as : List α) : as.zipIdx.Pairwise fun p q => p.2 < q.2 := by
  rw [← List.pairwise_map, List.zipIdx_map_snd]
  exact List.pairwise_lt_range'

theorem exists_forall₂_iff {R : α → β → Prop} {as : List α} :
    (∃ bs, List.Forall₂ R as bs) ↔ ∀ a ∈ as, ∃ b, R a b := by
  induction as with
  | nil => exact ⟨fun _ => nofun, fun _ => ⟨[], .nil⟩⟩
  | cons a as ih =>
    rw [List.forall_mem_cons, ← ih]
    constructor
    · rintro ⟨_, h⟩
      obtain ⟨b, bs, hb, hbs, _⟩ := List.forall₂_cons_left_iff.1 h
      exact ⟨⟨b, hb⟩, bs, hbs⟩
    · rintro ⟨⟨b, hb⟩, bs, hbs⟩
      exact ⟨b :: bs, .cons hb hbs⟩

theorem forall₂_comp {γ : Type} {R : α → β → Prop} {S : β → γ → Prop} {as : List α} {bs : List β}
    {cs : List γ} (h : List.Forall₂ R as bs) (h' : List.Forall₂ S bs cs) :
    List.Forall₂ (fun a c => ∃ b, R a b ∧ S b c) as cs := by
  induction h generalizing cs with
  | nil =>
    cases h'
    exact .nil
  | cons hab _ ih =>
    cases h' with
    | cons hbc hrest => exact .cons ⟨_, hab, hbc⟩ (ih hrest)

/-- Where everything goes well there are results. -/
theorem exists_oks {f : α → Except ε β} {as : List α} (h : ∀ a ∈ as, ∃ b, f a = .ok b) :
    ∃ bs : List β, as.map f = bs.map .ok := by
  obtain ⟨bs, hbs⟩ := exists_forall₂_iff.2 h
  refine ⟨bs, ?_⟩
  rw [← List.forall₂_eq_eq_eq, List.forall₂_map_left_iff, List.forall₂_map_right_iff]
  exact hbs

theorem mapM_eq_ok_iff {f : α → Except ε β} {as : List α} {bs : List β} :
    as.mapM f = .ok bs ↔ List.Forall₂ (fun a b => f a = .ok b) as bs := by
  induction as generalizing bs with
  | nil =>
    rw [List.mapM_nil, List.forall₂_nil_left_iff]
    exact ⟨fun h => (Except.ok.inj h).symm, fun h => by rw [h]; rfl⟩
  | cons a as ih =>
    rw [List.mapM_cons, List.forall₂_cons_left_iff, except_bind_eq_ok_iff]
    constructor
    · rintro ⟨b, hb, h⟩
      obtain ⟨cs, hc, h⟩ := except_bind_eq_ok_iff.1 h
      exact ⟨b, cs, hb, ih.1 hc, (Except.ok.inj h).symm⟩
    · rintro ⟨b, cs, hb, hc, rfl⟩
      exact ⟨b, hb, except_bind_eq_ok_iff.2 ⟨cs, ih.2 hc, rfl⟩⟩

/-- Where all results are of one shape, what they are made from can be listed beside the sequence. -/
theorem exists_map_of_mapM {γ : Type} {f : α → Except ε β} {g : γ → β} {R : α → γ → Prop}
    (hf : ∀ a b, f a = .ok b → ∃ c, b = g c ∧ R a c) {as : List α} {bs : List β}
    (h : as.mapM f = .ok bs) : ∃ cs, List.Forall₂ R as cs ∧ bs = cs.map g := by
  have hall := mapM_eq_ok_iff.1 h
  clear h
  induction hall with
  | nil => exact ⟨[], .nil, rfl⟩
  | @cons a b _ _ hab _ ih =>
    obtain ⟨c, rfl, hc⟩ := hf a b hab
    obtain ⟨cs, hcs, rfl⟩ := ih
    exact ⟨c :: cs, .cons hc hcs, rfl⟩

/-- Where a function tells the results of those that succeed, the results are mapped. -/
theorem eq_map_of_mapM {f : α → Except ε β} {g : α → β} (hf : ∀ a b, f a = .ok b → b = g a)
    {as : List α} {bs : List β} (h : as.mapM f = .ok bs) : bs = as.map g := by
  have hall := mapM_eq_ok_iff.1 h
  clear h
  induction hall with
  | nil => rfl
  | @cons a b _ _ hab _ ih => rw [List.map_cons, hf a b hab, ih]

theorem exists_mapM_iff {f : α → Except ε β} {as : List α} :
    (∃ bs, as.mapM f = .ok bs) ↔ ∀ a ∈ as, ∃ b, f a = .ok b := by
  rw [← exists_forall₂_iff]
  exact exists_congr fun _ => mapM_eq_ok_iff

theorem mem_iff_of_mapM_eq_ok {f : α → Except ε β} {as : List α} {bs : List β}
    (h : as.mapM f = .ok bs) {b : β} : b ∈ bs ↔ ∃ a ∈ as, f a = .ok b := by
  have hall := mapM_eq_ok_iff.1 h
  clear h
  induction hall with
  | nil => simp
  | @cons a b' as bs hab _ ih =>
    rw [List.mem_cons, List.exists_mem_cons_iff, hab, Except.ok.injEq, eq_comm]
    exact or_congr_right ih

end Rehearsal
