import Rehearsal.Proofs.Contexts.Course

/-! What composition constructs. The contexts of a tree are constructed in preorder, and whoever has an
owner finds its context at the place of the owner's alias. Where a factory fails, the contexts before it
are handed back under the same places. -/

namespace Rehearsal
set_option autoImplicit false

namespace ContextSpec

/-- The context of an owner has a place in a list of contexts: that of its alias, or the first place
where there is no owner. -/
def OwnerAt (specs : List ContextSpec) (owner : Option String) (j : Nat) : Prop :=
  match owner with
  | none => j = 0
  | some aliasName => specs[j]?.map (·.aliasName) = some aliasName

end ContextSpec

namespace Arena
variable {a : Arena} {specs : List ContextSpec} {built : List Instance}

theorem Holds.binds_iff (h : a.Holds specs built) (owner : Option String) :
    a.binds owner = owner.all fun aliasName => specs.any (·.aliasName == aliasName) := by
  cases owner with
  | none => rfl
  | some aliasName =>
    have hany := congrArg (List.any · (· == aliasName)) h.aliases
    rw [Arena.aliases, List.any_map, List.any_map] at hany
    exact hany

/-- Whoever runs on a context finds it at the place of its owner. -/
theorem Holds.ownerAt {owner : Option String} {i : Instance} (h : a.Holds specs built)
    (hi : a.ownerInstance owner = .ok i) : ∃ j, ContextSpec.OwnerAt specs owner j ∧ built[j]? = some i := by
  have hnode : ∀ {j : Nat} {n : Node}, a.nodes[j]? = some n →
      built[j]? = some n.inst ∧ specs[j]?.map (·.aliasName) = some n.aliasName := by
    intro j n hn
    have haliases : a.aliases[j]? = some n.aliasName := by
      rw [Arena.aliases, List.getElem?_map, hn]
      rfl
    rw [h.aliases, List.getElem?_map] at haliases
    refine ⟨?_, haliases⟩
    rw [← h.instances, List.getElem?_map, hn]
    rfl
  cases owner with
  | none =>
    obtain ⟨n, hn, hr⟩ := except_bind_eq_ok_iff.1 hi
    cases hr
    exact ⟨0, rfl, (hnode (node_eq_ok_iff.1 hn)).1⟩
  | some aliasName =>
    obtain ⟨n, hn, hr⟩ := except_bind_eq_ok_iff.1 hi
    cases hr
    obtain ⟨j, hj, hat⟩ := except_bind_eq_ok_iff.1 hn
    have hn := hnode (node_eq_ok_iff.1 hat)
    refine ⟨j, ?_, hn.1⟩
    rw [find] at hj
    split at hj
    · rename_i j' hj'
      cases hj
      obtain ⟨hlt, hname, _⟩ := List.findIdx?_eq_some_iff_getElem.1 hj'
      have hget := node_eq_ok_iff.1 hat
      rw [List.getElem?_eq_getElem hlt] at hget
      rw [Option.some.inj hget] at hname
      rw [ContextSpec.OwnerAt, hn.2, eq_of_beq hname]
    · cases hj

end Arena

/-- A factory that is called, with what it built or raised. -/
def Moment.construction? : Moment Request.Answer Bool → Option (Factory × Except Fault Instance)
  | ⟨.construct factory _, r, _⟩ => some (factory, r)
  | _ => none

namespace Trace
variable {t u : Trace}

def constructions (t : Trace) : List (Factory × Except Fault Instance) :=
  t.filterMap Moment.construction?

@[simp] theorem constructions_append :
    constructions (t ++ u) = t.constructions ++ u.constructions := List.filterMap_append

theorem constructions_cons {factory : Factory} {params : List (String × Value)}
    {r : Except Fault Instance} {m : Bool} :
    constructions (⟨.construct factory params, r, m⟩ :: t) = (factory, r) :: t.constructions := rfl

end Trace

namespace Composition
variable {t : Trace}

theorem Builds.length_eq {specs : List ContextSpec} {built : List Instance}
    (h : Builds specs built t) : built.length = specs.length := by
  induction h with
  | nil => rfl
  | cons m _ _ ih => rw [List.length_cons, List.length_cons, ih]

/-- Factories that return are called once each and in order. -/
theorem Builds.constructions {specs : List ContextSpec} {built : List Instance}
    (h : Builds specs built t) :
    t.constructions = List.zipWith (fun s i => (s.factory, .ok i)) specs built := by
  induction h with
  | nil => rfl
  | cons m _ _ ih =>
    rw [List.zipWith_cons_cons, ← ih]
    rfl

theorem Builds.factories {specs : List ContextSpec} {built : List Instance}
    (h : Builds specs built t) : t.constructions.map (·.1) = specs.map (·.factory) := by
  induction h with
  | nil => rfl
  | cons m _ _ ih =>
    rw [List.map_cons, ← ih]
    rfl

theorem Builds.outcomes {specs : List ContextSpec} {built : List Instance}
    (h : Builds specs built t) : t.constructions.map (·.2) = built.map .ok := by
  induction h with
  | nil => rfl
  | cons m _ _ ih =>
    rw [List.map_cons, ← ih]
    rfl

theorem Leaves.constructions {walk : List (ContextSpec × Option ContextSpec)}
    {built : List Instance} {salvaged : Option Arena} (h : Leaves walk built t salvaged) :
    t.constructions = [] := by
  cases h with
  | nothing => rfl
  | handed => rfl

/-- What the factories gave, by the course of the composition: an instance each, up to the end or to one
that could not be called; or instances and then a fault, on which it ends at once or fails. -/
theorem Course.outcomes {done rest : List (ContextSpec × Option ContextSpec)}
    {before : List Instance} {r : Except Broken Arena} (h : Course done before rest t r) :
    (∃ built : List Instance, t.constructions.map (·.2) = built.map .ok ∧
      (built.length = rest.length ∧ (∃ a, r = .ok a ∧ Completes done before rest built t a) ∨
        ∃ s parent, rest[built.length]? = some (s, parent) ∧ ¬ s.Named)) ∨
    ∃ (built : List Instance) (f : Fault), t.constructions.map (·.2) = built.map .ok ++ [.error f] ∧
      (escapes f = true ∧ r = .error ⟨f, none⟩ ∧
          (∃ (u : Trace) (m : _), t = u ++ [m] ∧ u.constructions.map (·.2) = built.map .ok) ∨
        ∃ b, r = .error b ∧ Fails done before rest built f t b) := by
  cases h with
  | @complete t built a h =>
    refine .inl ⟨built, ?_, .inl ⟨?_, a, rfl, h⟩⟩
    · cases h with
      | attached m hb ha =>
        rw [Trace.constructions_append, List.map_append, hb.outcomes]
        exact List.append_nil _
    · cases h with
      | attached m hb ha => rw [hb.length_eq, List.length_map]
  | @escaped _ _ _ built _ f m hat hb hp hf =>
    refine .inr ⟨built, f, ?_, .inl ⟨hf, rfl, _, _, rfl, hb.outcomes⟩⟩
    rw [Trace.constructions_append, List.map_append, hb.outcomes]
    rfl
  | @failed _ built f b h =>
    refine .inr ⟨built, f, ?_, .inr ⟨b, rfl, h⟩⟩
    cases h with
    | raised m hat hb hp hf hl =>
      rw [Trace.constructions_append, Trace.constructions_cons, List.map_append, hb.outcomes,
        hl.constructions]
      rfl
  | @unnamed s parent _ _ built _ _ hat hb hp hl =>
    refine .inl ⟨built, ?_, .inr ⟨s, parent, hat, ?_⟩⟩
    · rw [Trace.constructions_append, List.map_append, hb.outcomes, hl.constructions]
      exact List.append_nil _
    · rintro ⟨params, hparams⟩
      cases hp.symm.trans hparams

/-- Instances and then a fault: there is one way to read this. -/
theorem eq_of_outcomes {built more : List Instance} {f g : Fault}
    (h : more.map (.ok : Instance → Except Fault Instance) ++ [.error g] =
      built.map .ok ++ [.error f]) : more = built ∧ g = f := by
  rw [List.append_singleton_inj, Except.error.injEq] at h
  exact ⟨List.map_injective_iff.2 (fun _ _ hi => Except.ok.inj hi) h.1, h.2⟩

theorem not_mem_error_map_ok {built : List Instance} {f : Fault} :
    (.error f : Except Fault Instance) ∉ built.map .ok := by
  intro h
  obtain ⟨i, _, hi⟩ := List.mem_map.1 h
  cases hi

theorem outcomes_of_zipWith {specs : List ContextSpec} {built : List Instance}
    (h : t.constructions = List.zipWith (fun s i => (s.factory, .ok i)) specs built)
    (hlen : built.length = specs.length) : t.constructions.map (·.2) = built.map .ok := by
  rw [h, List.map_zipWith]
  clear h
  induction built generalizing specs with
  | nil => rw [List.zipWith_nil_right, List.map_nil]
  | cons i built ih =>
    obtain ⟨s, specs, rfl⟩ := List.exists_cons_of_length_eq_add_one hlen.symm
    rw [List.zipWith_cons_cons, List.map_cons, ih (Nat.succ.inj hlen)]

/-- The composition completes where every factory is called and returns. -/
theorem Course.completes {done rest : List (ContextSpec × Option ContextSpec)}
    {before built : List Instance} {r : Except Broken Arena} (h : Course done before rest t r)
    (hc : t.constructions.map (·.2) = built.map .ok)
    (hn : ∀ s parent, rest[built.length]? = some (s, parent) → s.Named) :
    ∃ a, r = .ok a ∧ Completes done before rest built t a := by
  obtain ⟨more, hmore, hends⟩ | ⟨more, g, hmore, _⟩ := h.outcomes
  · obtain rfl : more = built :=
      List.map_injective_iff.2 (fun _ _ hi => Except.ok.inj hi) (hmore.symm.trans hc)
    obtain ⟨_, hcompletes⟩ | ⟨s, parent, hat, hunnamed⟩ := hends
    · exact hcompletes
    · exact absurd (hn s parent hat) hunnamed
  · have hmem : (.error g : Except Fault Instance) ∈ more.map .ok ++ [.error g] :=
      List.mem_append_right _ List.mem_cons_self
    rw [← hmore, hc] at hmem
    exact absurd hmem not_mem_error_map_ok

/-- The composition fails at the factory that raised what is contained. -/
theorem Course.fails {done rest : List (ContextSpec × Option ContextSpec)} {before built : List Instance}
    {r : Except Broken Arena} {f : Fault} (h : Course done before rest t r) (hf : escapes f = false)
    (hc : t.constructions.map (·.2) = built.map .ok ++ [.error f]) :
    ∃ b, r = .error b ∧ Fails done before rest built f t b := by
  obtain ⟨more, hmore, _⟩ | ⟨more, g, hmore, hends⟩ := h.outcomes
  · have hmem : (.error f : Except Fault Instance) ∈ built.map .ok ++ [.error f] :=
      List.mem_append_right _ List.mem_cons_self
    rw [← hc, hmore] at hmem
    exact absurd hmem not_mem_error_map_ok
  · obtain ⟨rfl, rfl⟩ := eq_of_outcomes (hmore.symm.trans hc)
    obtain ⟨he, _⟩ | hfails := hends
    · cases hf.symm.trans he
    · exact hfails

end Composition

theorem compose_eq_composeFrom {root : ContextSpec} {seen : List ContextSpec}
    (h : ContextSpec.validateFrom [] root.contexts = .ok seen) :
    compose root = Composition.composeFrom Arena.empty (root.preorder none) := by
  rw [compose, ContextSpec.validate, ContextSpec.walk_eq_preorder]
  rw [ContextSpec.contexts] at h
  rw [h]

/-- Contexts that are complete: each was constructed once and in order. -/
theorem holds_of_compose {root : ContextSpec} {t : Trace} {a : Arena}
    (h : (compose root).Runs t (.ok a)) :
    ∃ built : List Instance,
      t.constructions = List.zipWith (fun s i => (s.factory, .ok i)) root.contexts built ∧
      a.Holds root.contexts built := by
  obtain ⟨_, hcourse⟩ | ⟨_, _, _, _, _, hr⟩ := Composition.course_compose h
  · cases hcourse with
    | complete h =>
      cases h with
      | attached m hb ha =>
        refine ⟨_, ?_, ha.toHolds⟩
        rw [Trace.constructions_append, hb.constructions]
        exact List.append_nil _
  · cases hr

/-- Where every factory of a tree returns, the contexts are complete. -/
theorem holds_of_constructed {root : ContextSpec} {t : Trace} {r : Except Broken Arena}
    {built : List Instance} (h : (compose root).Runs t r)
    (hc : t.constructions = List.zipWith (fun s i => (s.factory, .ok i)) root.contexts built)
    (hlen : built.length = root.contexts.length) : ∃ a, r = .ok a ∧ a.Holds root.contexts built := by
  have hgiven := Composition.outcomes_of_zipWith hc hlen
  have hbuilt : (root.preorder none).length = built.length := by
    rw [hlen, ContextSpec.contexts, List.length_map]
  obtain ⟨_, hcourse⟩ | ⟨_, rfl, _⟩ := Composition.course_compose h
  · have hnamed : ∀ s parent, (root.preorder none)[built.length]? = some (s, parent) → s.Named := by
      intro s parent hat
      rw [List.getElem?_eq_none (Nat.le_of_eq hbuilt)] at hat
      cases hat
    obtain ⟨a, rfl, hcompletes⟩ := hcourse.completes hgiven hnamed
    cases hcompletes with
    | attached m hb ha => exact ⟨a, rfl, ha.toHolds⟩
  · -- Nothing was constructed, although there is a root.
    rw [ContextSpec.preorder_eq, List.length_cons] at hbuilt
    have hnone := congrArg List.length hgiven
    rw [List.length_map] at hnone
    simp [Trace.constructions, ← hbuilt] at hnone

/-- The factories are called up to the one that fails, which is to blame for it. The contexts before it are
handed back, unless there are none. -/
theorem broken_of_compose {root : ContextSpec} {t : Trace} {b : Broken} {built : List Instance}
    {f : Fault} (h : (compose root).Runs t (.error b)) (hf : Composition.escapes f = false)
    (hc : t.constructions.map (·.2) = built.map .ok ++ [.error f]) :
    t.constructions.map (·.1) = (root.contexts.take (built.length + 1)).map (·.factory) ∧
    ∃ s, root.contexts[built.length]? = some s ∧ b.fault = .construction s.aliasName s.identity f ∧
      (b.salvaged = none ∧ built = [] ∨
        ∃ a, b.salvaged = some a ∧ built ≠ [] ∧ a.Holds (root.contexts.take built.length) built) := by
  obtain ⟨_, hcourse⟩ | ⟨_, rfl, _⟩ := Composition.course_compose h
  · obtain ⟨_, heq, hfails⟩ := hcourse.fails hf hc
    cases heq
    cases hfails with
    | @raised s parent _ _ _ _ m hat hb hp _ hl =>
      have hs : root.contexts[built.length]? = some s := by
        rw [ContextSpec.contexts, List.getElem?_map, hat]
        rfl
      refine ⟨?_, s, hs, rfl, ?_⟩
      · rw [List.take_add_one, hs, List.map_append, ContextSpec.contexts, ← List.map_take,
          ← hb.factories, Trace.constructions_append, Trace.constructions_cons, List.map_append,
          hl.constructions]
        rfl
      · cases hl with
        | nothing hnil => exact .inl ⟨rfl, hnil⟩
        | @handed a _ hne ha =>
          refine .inr ⟨a, rfl, hne, ?_⟩
          rw [ContextSpec.contexts, ← List.map_take]
          exact ha.toHolds
  · exact absurd hc.symm (List.append_ne_nil_of_right_ne_nil _ (List.cons_ne_nil _ _))

end Rehearsal
