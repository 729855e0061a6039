import Rehearsal.Proofs.Bootstrap.Owners

/-! How building a registry ends. What is refused is an error of configuration, whether it is an alias that
is taken, a definition that cannot be used or one that is there already. Marks that cannot be read are the
exception: where the first mark that is refused is of that kind, the fault is one of another. -/

namespace Rehearsal
set_option autoImplicit false

/-- Of the marks that are come to one after the other the first that is refused cannot be read. -/
inductive Founders : List Finding → Prop where
  | here {x : Finding} {xs : List Finding} : x.unreadable = true → Founders (x :: xs)
  | later {x : Finding} {xs : List Finding} (i : Item) : x.item = .ok i → Founders xs →
      Founders (x :: xs)

/-- What becomes of marks one after the other. -/
inductive BecomeAll (xs : List Finding) : Except Fault (List Item) → Prop where
  | items (is : List Item) : (∀ i ∈ is, ∀ kind, i ≠ .other kind) → ¬ Founders xs → BecomeAll xs (.ok is)
  | refused (e : DefinitionError) : ¬ Founders xs → BecomeAll xs (.error (.definition e))
  | unread (f : Fault) : f.Foreign → Founders xs → BecomeAll xs (.error f)

namespace BecomeAll
variable {x : Finding} {xs : List Finding} {r : Except Fault (List Item)}

theorem cons {i : Item} (hx : x.item = .ok i) (hu : x.unreadable = false) (hi : ∀ kind, i ≠ .other kind)
    (h : BecomeAll xs r) : BecomeAll (x :: xs) (do return i :: (← r)) := by
  have hfounders : Founders (x :: xs) → Founders xs := by
    intro hf
    cases hf with
    | here hread => exact absurd (hread.symm.trans hu) nofun
    | later _ _ hrest => exact hrest
  cases h with
  | items is hall hnot =>
    exact .items (i :: is) (List.forall_mem_cons.2 ⟨hi, hall⟩) (hnot ∘ hfounders)
  | refused e hnot => exact .refused e (hnot ∘ hfounders)
  | unread f hf hrest => exact .unread f hf (.later i hx hrest)

end BecomeAll

end Rehearsal
