import Rehearsal.Proofs.Except
import Rehearsal.Registry

/-! Looking up hooks: those of a phase that apply, in the order of registration. -/

namespace Rehearsal.Registry
set_option autoImplicit false

variable {r : Registry} {phase : HookPhase} {tags : Option (List String)} {hooks : List Hook}

theorem lookup_sublist (h : r.lookup phase tags = .ok hooks) : hooks.Sublist (r.hooksOf phase) := by
  obtain ⟨marked, hm, h⟩ := except_bind_eq_ok_iff.1 h
  cases h
  have hall : List.Forall₂ (· = ·) (r.hooksOf phase) (marked.map (·.1)) := by
    refine List.forall₂_map_right_iff.2 ((mapM_eq_ok_iff.1 hm).imp ?_)
    intro hook p hp
    obtain ⟨_, _, hb⟩ := except_bind_eq_ok_iff.1 hp
    cases hb
    rfl
  rw [List.forall₂_eq_eq_eq] at hall
  rw [hall]
  exact List.filter_sublist.map _

theorem phase_of_mem_lookup (h : r.lookup phase tags = .ok hooks) {hook : Hook}
    (hm : hook ∈ hooks) : hook.phase = phase := by
  have hf := (lookup_sublist h).subset hm
  exact eq_of_beq (List.mem_filter.1 hf).2

/-- Choosing hooks fails on a tag of which nothing is left. -/
theorem eq_blankTag_of_lookup {f : Fault} (h : r.lookup phase tags = .error f) : f = .blankTag := by
  have htag : ∀ {tag : String}, Tag.normalize tag = .error f → f = .blankTag := by
    intro tag ht
    unfold Tag.normalize at ht
    split at ht <;> cases ht
    rfl
  have happly : ∀ {hook : Hook}, hook.appliesTo tags = .error f → f = .blankTag := by
    intro hook ha
    unfold Hook.appliesTo at ha
    split at ha
    · rcases except_bind_eq_error_iff.1 ha with hm | ⟨_, _, hp⟩
      · obtain ⟨_, _, ht⟩ := exists_of_mapM_eq_error hm
        exact htag ht
      · cases hp
    · cases ha
  rcases except_bind_eq_error_iff.1 h with hm | ⟨_, _, hp⟩
  · obtain ⟨hook, _, hmark⟩ := exists_of_mapM_eq_error hm
    rcases except_bind_eq_error_iff.1 hmark with ha | ⟨_, _, hp⟩
    · exact happly ha
    · cases hp
  · cases hp

/-- What choosing hooks fails on is no interrupt. -/
theorem family_of_lookup {f : Fault} (h : r.lookup phase tags = .error f) :
    f.family = .ordinary := by
  rw [eq_blankTag_of_lookup h]
  rfl

/-- Where each hook applies, those of a phase are chosen. -/
theorem lookup_of_applies (h : ∀ hook ∈ r.registered, hook.appliesTo tags = .ok true) :
    r.lookup phase tags = .ok (r.hooksOf phase) := by
  have hmark : ∀ hs : List Hook, (∀ hook ∈ hs, hook.appliesTo tags = .ok true) →
      (hs.mapM fun hook => do return (hook, ← hook.appliesTo tags)) =
        (.ok (hs.map fun hook => (hook, true)) : Except Fault _) := by
    intro hs happly
    induction hs with
    | nil => rfl
    | cons hook hs ih =>
      obtain ⟨happ, hrest⟩ := List.forall_mem_cons.1 happly
      rw [List.mapM_cons, ih hrest, happ]
      rfl
  have hall : ∀ hook ∈ r.hooksOf phase, hook.appliesTo tags = .ok true :=
    fun hook hm => h hook (List.mem_filter.1 hm).1
  rw [lookup, hmark _ hall]
  simp [bind, Except.bind, pure, Except.pure, List.filter_map, Function.comp_def]

theorem lookup_of_unfiltered (h : ∀ hook ∈ r.registered, hook.tags = none) :
    r.lookup phase tags = .ok (r.hooksOf phase) := by
  refine lookup_of_applies fun hook hm => ?_
  unfold Hook.appliesTo
  rw [h hook hm]

/-- Without tags to choose by, choosing does not fail. -/
theorem lookup_untagged : r.lookup phase none = .ok (r.hooksOf phase) := by
  refine lookup_of_applies fun hook _ => ?_
  unfold Hook.appliesTo
  cases hook.tags <;> rfl

/-- Hooks are chosen unless one of the phase cannot tell whether it applies. -/
theorem exists_lookup_iff :
    (∃ hooks, r.lookup phase tags = .ok hooks) ↔
      ∀ hook ∈ r.hooksOf phase, ∃ b, hook.appliesTo tags = .ok b := by
  have hmark : ∀ hook : Hook, (∃ p, (do return (hook, ← hook.appliesTo tags)) = Except.ok p) ↔
      ∃ b, hook.appliesTo tags = .ok b := by
    intro hook
    cases hook.appliesTo tags <;> simp [bind, Except.bind, pure, Except.pure]
  simp only [← hmark, ← exists_mapM_iff, lookup]
  constructor
  · rintro ⟨_, h⟩
    obtain ⟨marked, hm, _⟩ := except_bind_eq_ok_iff.1 h
    exact ⟨marked, hm⟩
  · rintro ⟨marked, hm⟩
    exact ⟨_, except_bind_eq_ok_iff.2 ⟨marked, hm, rfl⟩⟩

theorem mem_lookup_iff (h : r.lookup phase tags = .ok hooks) {hook : Hook} :
    hook ∈ hooks ↔ hook ∈ r.hooksOf phase ∧ hook.appliesTo tags = .ok true := by
  obtain ⟨marked, hm, h⟩ := except_bind_eq_ok_iff.1 h
  cases h
  simp only [List.mem_map, List.mem_filter, mem_iff_of_mapM_eq_ok hm]
  constructor
  · rintro ⟨p, ⟨⟨hook', hmem, hp⟩, happlies⟩, rfl⟩
    obtain ⟨b, hb, hp⟩ := except_bind_eq_ok_iff.1 hp
    cases hp
    exact ⟨hmem, by rw [hb, show b = true from happlies]⟩
  · rintro ⟨hmem, happlies⟩
    exact ⟨(hook, true), ⟨⟨hook, hmem, by rw [happlies]; rfl⟩, rfl⟩, rfl⟩

end Rehearsal.Registry
