import Rehearsal.Outcome

/-! The most severe of several statuses. It is found by going through them one after the other; what
it is can be said without an order: no status of them is more severe, and it is one of them, or passed
where there are none. -/

namespace Rehearsal.Status
set_option autoImplicit false

/-- A status is the most severe of several; of none it is passed. -/
def IsWorstOf (s : Status) (ss : List Status) : Prop :=
  (∀ k ∈ ss, k.severity ≤ s.severity) ∧ (s ∈ ss ∨ ss = [] ∧ s = .passed)

variable {n : Nat} {s start : Status} {ss : List Status}

/-- The most severe status reaches a threshold as soon as one of them does. -/
theorem le_severity_worst_iff :
    n ≤ (worst start ss).severity ↔ n ≤ start.severity ∨ ∃ k ∈ ss, n ≤ k.severity := by
  induction ss generalizing start with
  | nil => simp
  | cons k ss ih =>
    have hmax : n ≤ max start.severity k.severity ↔ n ≤ start.severity ∨ n ≤ k.severity := by omega
    rw [worst_cons, ih, severity_worse, hmax]
    simp [or_assoc]

/-- What has passed does not count. -/
theorem worst_eq_of_mem {ss' : List Status} (h : ∀ k ∈ ss, k ∈ ss' ∨ k = .passed)
    (h' : ∀ k ∈ ss', k ∈ ss ∨ k = .passed) : worst .passed ss = worst .passed ss' := by
  have hle : ∀ {as bs : List Status}, (∀ k ∈ as, k ∈ bs ∨ k = .passed) →
      (worst .passed as).severity ≤ (worst .passed bs).severity := by
    intro as bs hall
    refine le_severity_worst_iff.2 ?_
    rcases le_severity_worst_iff.1 (Nat.le_refl (worst .passed as).severity) with hp | ⟨k, hk, hle⟩
    · exact .inl hp
    · rcases hall k hk with hb | rfl
      · exact .inr ⟨k, hb, hle⟩
      · exact .inl hle
  exact severity_inj (Nat.le_antisymm (hle h) (hle h'))

theorem worst_mem (start : Status) (ss : List Status) : worst start ss ∈ start :: ss := by
  induction ss generalizing start with
  | nil => exact List.mem_cons_self
  | cons k ss ih =>
    have hworse : worse start k = start ∨ worse start k = k := by
      unfold worse
      split
      · exact .inr rfl
      · exact .inl rfl
    rw [worst_cons]
    rcases List.mem_cons.1 (ih (worse start k)) with h | h
    · rw [h]
      rcases hworse with hk | hk <;> rw [hk] <;> simp
    · exact List.mem_cons_of_mem _ (List.mem_cons_of_mem _ h)

theorem isWorstOf_iff : s.IsWorstOf ss ↔ s = worst .passed ss := by
  constructor
  · rintro ⟨hall, hs⟩
    refine severity_inj (Nat.le_antisymm ?_ ?_)
    · rcases hs with hs | ⟨rfl, rfl⟩
      · exact le_severity_worst_iff.2 (.inr ⟨s, hs, Nat.le_refl _⟩)
      · exact Nat.le_refl _
    · rcases List.mem_cons.1 (worst_mem .passed ss) with hw | hw
      · rw [hw]
        exact Nat.zero_le _
      · exact hall _ hw
  · rintro rfl
    have hall : ∀ k ∈ ss, k.severity ≤ (worst .passed ss).severity :=
      fun k hk => le_severity_worst_iff.2 (.inr ⟨k, hk, Nat.le_refl _⟩)
    refine ⟨hall, ?_⟩
    rcases List.mem_cons.1 (worst_mem .passed ss) with hw | hw
    · cases ss with
      | nil => exact .inr ⟨rfl, rfl⟩
      | cons k ss =>
        have hk := hall k List.mem_cons_self
        rw [hw] at hk ⊢
        obtain rfl : k = .passed := severity_inj (Nat.le_zero.1 hk)
        exact .inl List.mem_cons_self
    · exact .inl hw

theorem le_failed (s : Status) : s.severity ≤ failed.severity := by
  cases s <;> decide

theorem isWorstOf_failed_iff : failed.IsWorstOf ss ↔ .failed ∈ ss := by
  constructor
  · rintro ⟨_, hs | ⟨_, hs⟩⟩
    · exact hs
    · cases hs
  · exact fun h => ⟨fun k _ => le_failed k, .inl h⟩

end Rehearsal.Status
