import Rehearsal.Context.Spec
import Rehearsal.Proofs.Tag

/-! The tree of declared contexts. It is walked in preorder, so that a context comes after the one it is
declared under, and it is taken where no two of its contexts share an alias. -/

namespace Rehearsal.ContextSpec
set_option autoImplicit false

theorem preorder_eq (s : ContextSpec) (parent : Option ContextSpec) :
    s.preorder parent = (s, parent) :: preorderAll (some s) s.subcontexts := by
  rcases s with ⟨_, _, _, _, _⟩
  rw [preorder]

theorem preorderAll_eq_flatMap (parent : Option ContextSpec) (ss : List ContextSpec) :
    preorderAll parent ss = ss.flatMap (preorder parent) := by
  induction ss with
  | nil => rw [preorderAll, List.flatMap_nil]
  | cons s ss ih => rw [preorderAll, ih, List.flatMap_cons]

namespace Pending

/-- The contexts still to be visited, in preorder. -/
def preorder (pending : Pending) : List (ContextSpec × Option ContextSpec) :=
  pending.flatMap fun p => p.1.preorder p.2

/-- A turn visits the first of those contexts and leaves the others. -/
theorem preorder_of_next? {pending rest : Pending} {entry : ContextSpec × Option ContextSpec}
    (h : pending.next? = some (entry, rest)) : pending.preorder = entry :: rest.preorder := by
  obtain ⟨below, rfl, rfl⟩ := next?_eq_some_iff.1 h
  rw [preorder, preorder, List.flatMap_cons, List.flatMap_append, List.flatMap_map, preorder_eq,
    preorderAll_eq_flatMap, List.cons_append]

end Pending

theorem walkFrom_eq_preorder (pending : Pending) : walkFrom pending = pending.preorder := by
  -- The induction is on the stack: its top is replaced by what is under it.
  induction pending using walkFrom.induct with
  | case1 pending h =>
    obtain rfl := Pending.next?_eq_none_iff.1 h
    exact walkFrom_nil
  | case2 pending entry rest h ih => rw [walkFrom_of_next? h, ih, Pending.preorder_of_next? h]

theorem walk_eq_preorder (s : ContextSpec) : s.walk = s.preorder none := by
  rw [walk, walkFrom_eq_preorder, Pending.preorder, List.flatMap_singleton]

/-- The contexts of a tree in preorder. -/
def contexts (s : ContextSpec) : List ContextSpec := (s.preorder none).map (·.1)

/-- A walk goes down a tree: what it comes to is under a context that was visited before, but for the
very first. -/
inductive Descends : List ContextSpec → List (ContextSpec × Option ContextSpec) → Prop
  | nil {seen : List ContextSpec} : Descends seen []
  | root {s : ContextSpec} {rest : List (ContextSpec × Option ContextSpec)} :
      Descends [s] rest → Descends [] ((s, none) :: rest)
  | under {seen : List ContextSpec} {s parent : ContextSpec}
      {rest : List (ContextSpec × Option ContextSpec)} :
      parent ∈ seen → Descends (seen ++ [s]) rest → Descends seen ((s, some parent) :: rest)

theorem Descends.of_cons {seen : List ContextSpec} {s : ContextSpec} {parent : Option ContextSpec}
    {rest : List (ContextSpec × Option ContextSpec)} (h : Descends seen ((s, parent) :: rest)) :
    (parent = none → seen = []) ∧ (∀ p, parent = some p → p ∈ seen) ∧
      Descends (seen ++ [s]) rest := by
  cases h with
  | root h => exact ⟨fun _ => rfl, nofun, h⟩
  | under hp h =>
    refine ⟨nofun, ?_, h⟩
    intro p heq
    cases heq
    exact hp

/-- Whatever lies on the stack of a walk was put there by a context that was visited. -/
theorem descends_walkFrom {seen : List ContextSpec} {pending : Pending}
    (h : ∀ q ∈ pending, ∃ parent ∈ seen, q.2 = some parent) : Descends seen (walkFrom pending) := by
  induction pending using walkFrom.induct generalizing seen with
  | case1 pending hnext =>
    obtain rfl := Pending.next?_eq_none_iff.1 hnext
    rw [walkFrom_nil]
    exact .nil
  | case2 pending entry rest hnext ih =>
    rw [walkFrom_of_next? hnext]
    obtain ⟨below, rfl, rfl⟩ := Pending.next?_eq_some_iff.1 hnext
    obtain ⟨⟨p, hp, hparent⟩, hbelow⟩ := List.forall_mem_cons.1 h
    rcases entry with ⟨s, parent⟩
    dsimp only at hparent
    subst hparent
    refine .under hp (ih ?_)
    intro q hq
    rcases List.mem_append.1 hq with hq | hq
    · obtain ⟨child, _, rfl⟩ := List.mem_map.1 hq
      exact ⟨s, List.mem_append_right _ List.mem_cons_self, rfl⟩
    · obtain ⟨p', hp', hq'⟩ := hbelow q hq
      exact ⟨p', List.mem_append_left _ hp', hq'⟩

theorem descends_preorder (s : ContextSpec) : Descends [] (s.preorder none) := by
  rw [← walk_eq_preorder, walk, walkFrom_of_next? (Pending.next?_cons s none []), List.append_nil]
  refine .root (descends_walkFrom ?_)
  intro q hq
  obtain ⟨child, _, rfl⟩ := List.mem_map.1 hq
  exact ⟨s, List.mem_cons_self, rfl⟩

/-- The contexts before a place are told from the one at it. -/
theorem nodup_of_validateFrom {seen specs all : List ContextSpec}
    (h : validateFrom seen specs = .ok all) (hs : (seen.map (·.aliasName)).Nodup) :
    ((seen ++ specs).map (·.aliasName)).Nodup := by
  induction specs generalizing seen with
  | nil => rwa [List.append_nil]
  | cons s ss ih =>
    rw [validateFrom] at h
    split at h
    · cases h
    · rename_i hnone
      rw [List.append_cons]
      refine ih h ?_
      rw [List.map_append, List.nodup_append]
      refine ⟨hs, List.nodup_cons.2 ⟨List.not_mem_nil, List.nodup_nil⟩, ?_⟩
      rintro a ha b hb rfl
      obtain rfl := List.mem_singleton.1 hb
      obtain ⟨s', hs', he⟩ := List.mem_map.1 ha
      exact List.find?_eq_none.1 hnone s' hs' (beq_iff_eq.2 he)

theorem exists_of_validateFrom {seen specs : List ContextSpec} {f : Fault}
    (h : validateFrom seen specs = .error f) :
    ∃ u s v, specs = u ++ s :: v ∧ s.aliasName ∈ (seen ++ u).map (·.aliasName) ∧
      ∃ first, f = .aliasTaken s.aliasName first s.identity := by
  induction specs generalizing seen with
  | nil => cases h
  | cons s ss ih =>
    rw [validateFrom] at h
    split at h
    · rename_i first hfirst
      cases h
      have hname := List.find?_some hfirst
      refine ⟨[], s, ss, rfl, ?_, _, rfl⟩
      rw [List.append_nil, ← eq_of_beq hname]
      exact List.mem_map_of_mem (List.mem_of_find?_eq_some hfirst)
    · obtain ⟨u, s', v, rfl, hmem, hf⟩ := ih h
      exact ⟨s :: u, s', v, rfl, by simpa using hmem, hf⟩

def Distinct (s : ContextSpec) : Prop := (s.contexts.map (·.aliasName)).Nodup

/-- A tree is taken where its aliases are distinct, and else refused for an alias. -/
theorem validate_ends (s : ContextSpec) :
    s.Distinct ∧ (∃ all, s.validate = .ok all) ∨
      ¬ s.Distinct ∧ ∃ aliasName first second, s.validate = .error (.aliasTaken aliasName first second) := by
  have hvalidate : s.validate = validateFrom [] s.contexts := by
    rw [validate, walk_eq_preorder, contexts]
  rw [hvalidate]
  cases hv : validateFrom [] s.contexts with
  | ok all => exact .inl ⟨nodup_of_validateFrom hv List.nodup_nil, all, rfl⟩
  | error f =>
    obtain ⟨u, s', v, hsplit, hmem, first, rfl⟩ := exists_of_validateFrom hv
    refine .inr ⟨?_, _, _, _, rfl⟩
    intro hd
    rw [Distinct, hsplit, List.map_append, List.nodup_append] at hd
    exact hd.2.2 _ hmem _ List.mem_cons_self rfl

theorem mem_effectiveCapabilities {s : ContextSpec} {tag : String} :
    tag ∈ s.effectiveCapabilities ↔ tag ∈ s.capabilities ∨ tag ∈ s.factory.capabilities := by
  rw [effectiveCapabilities, mem_sortedSet, List.mem_append]

end Rehearsal.ContextSpec
