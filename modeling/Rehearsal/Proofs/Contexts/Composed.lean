import Rehearsal.Proofs.Scenario.Dispatch

/-! Trees that are composed as a whole. Every factory is called once and in preorder, the arena stands for
the tree place by place, and from each of its places every alias of the tree leads to its node. A tree in
which an alias is repeated is refused before anything is called. -/

namespace Rehearsal
set_option autoImplicit false

/-- The request that constructs a context: its factory is called with its parameters by name. -/
def ContextSpec.IsOrder (s : ContextSpec) (r : Request) : Prop :=
  ∃ params, Composition.namedParams s.params = .ok params ∧ r = .construct s.factory params

def Trace.requests (t : Trace) : List Request := t.map (·.request)

@[simp] theorem Trace.requests_append (t u : Trace) :
    requests (t ++ u) = t.requests ++ u.requests := List.map_append

/-- From wherever one starts in an arena each alias leads to the place of its context, and a name that is
the alias of none is unknown. -/
structure Arena.Leads (a : Arena) (specs : List ContextSpec) : Prop where
  found : ∀ id j s, specs[j]? = some s → Arena.Place.resolve ⟨a, id⟩ s.aliasName = .ok ⟨a, j⟩
  unknown : ∀ id aliasName, aliasName ∉ specs.map (·.aliasName) →
    Arena.Place.resolve ⟨a, id⟩ aliasName = .error (.unknownAlias aliasName)

namespace Arena
variable {a : Arena} {specs : List ContextSpec} {built : List Instance}

theorem place_of_lt {i : Nat} (h : i < a.size) : a.place i = .ok ⟨a, i⟩ := by
  have hnode : a.node i = .ok a.nodes[i] := node_eq_ok_iff.2 (List.getElem?_eq_getElem h)
  rw [place, hnode, except_ok_bind, Int.toNat_natCast]
  rfl

theorem Holds.leads (h : a.Holds specs built) : a.Leads specs := by
  constructor
  · intro id j s hs
    have hlt : j < a.size := by
      rw [h.size_eq]
      exact (List.getElem?_eq_some_iff.1 hs).1
    have hfind : a.find? s.aliasName = some j := by
      rw [find?_eq_some_iff h.distinct, h.aliases, List.getElem?_map, hs]
      rfl
    rw [Place.resolve, find, hfind]
    exact place_of_lt hlt
  · intro id aliasName hno
    have hfind : a.find? aliasName = none := by
      rw [find?, List.findIdx?_eq_none_iff]
      intro n hn
      rw [beq_eq_false_iff_ne]
      rintro rfl
      rw [← h.aliases] at hno
      exact hno (List.mem_map_of_mem hn)
    rw [Place.resolve, find, hfind]
    rfl

end Arena

theorem Composition.Builds.requests {t : Trace} {specs : List ContextSpec} {built : List Instance}
    (h : Builds specs built t) : List.Forall₂ ContextSpec.IsOrder specs t.requests := by
  induction h with
  | nil => exact .nil
  | cons m hs _ ih => exact .cons ⟨_, hs, rfl⟩ ih

/-- A tree that is composed as a whole. -/
structure ContextSpec.Composed (root : ContextSpec) (t : Trace) (a : Arena) (built : List Instance) :
    Prop where
  /-- Each factory is called once, in preorder. Then the contexts are told where they are. -/
  calls : ∃ orders, List.Forall₂ IsOrder root.contexts orders ∧ t.requests = orders ++ [.attach a]
  constructions : t.constructions = List.zipWith (fun s i => (s.factory, .ok i)) root.contexts built
  mirrors : a.Mirrors (root.preorder none) built
  rooted : ∀ id, Arena.Place.root ⟨a, id⟩ = .ok ⟨a, 0⟩
  leads : a.Leads root.contexts

theorem Composition.Completes.composed {root : ContextSpec} {t : Trace} {a : Arena}
    {built : List Instance} (h : Completes [] [] (root.preorder none) built t a) :
    root.Composed t a built := by
  cases h with
  | @attached u _ m hb ha =>
    refine ⟨⟨u.requests, hb.requests, Trace.requests_append _ _⟩, ?_, ha, ?_, ha.toHolds.leads⟩
    · rw [Trace.constructions_append, hb.constructions]
      exact List.append_nil _
    · intro id
      have hsize : 0 < a.size := by
        rw [ha.size_eq, List.nil_append, ContextSpec.preorder_eq, List.map_cons, List.length_cons]
        exact Nat.succ_pos _
      exact Arena.place_of_lt hsize

theorem composed_of_compose {root : ContextSpec} {t : Trace} {a : Arena}
    (h : (compose root).Runs t (.ok a)) : root.Distinct ∧ ∃ built, root.Composed t a built := by
  obtain ⟨hd, hcourse⟩ | ⟨_, _, _, _, _, hr⟩ := Composition.course_compose h
  · cases hcourse with
    | complete h => exact ⟨hd, _, h.composed⟩
  · cases hr

namespace Sample

theorem distinct_hotel : hotel.Distinct := by
  rw [ContextSpec.Distinct]
  decide +kernel

theorem named_hotel : ∀ s ∈ hotel.contexts, s.Named := by
  have hall : hotel.contexts.all (fun s => (Composition.namedParams s.params).toBool) = true := by
    decide +kernel
  intro s hs
  exact exists_of_toBool (List.all_eq_true.1 hall s hs)

end Sample

/-- Factories that all return give an arena of the whole tree, if no two of its contexts share an alias. If
two of them do, whatever their places, the tree is refused and nothing is called. -/
theorem composed_of_distinct {root : ContextSpec} {t : Trace} {r : Except Broken Arena}
    (h : (compose root).Runs t r) :
    (root.Distinct → (∀ s ∈ root.contexts, s.Named) →
      (∀ c ∈ t.constructions, ∃ i, c.2 = .ok i) → ∃ a built, r = .ok a ∧ root.Composed t a built) ∧
    ∀ (i j : Nat) (s s' : ContextSpec), i < j → root.contexts[i]? = some s → root.contexts[j]? = some s' →
      s.aliasName = s'.aliasName →
        t = [] ∧ ∃ b, r = .error b ∧ b.fault.kind = "CompositionError" ∧ b.salvaged = none := by
  constructor
  · intro hd hn hok
    obtain ⟨_, hcourse⟩ | ⟨hno, _⟩ := Composition.course_compose h
    · obtain ⟨built, hbuilt⟩ := exists_oks hok
      have hnamed : ∀ s parent, (root.preorder none)[built.length]? = some (s, parent) → s.Named := by
        intro s parent hat
        exact hn s (List.mem_map.2 ⟨_, List.mem_of_getElem? hat, rfl⟩)
      obtain ⟨a, rfl, hcompletes⟩ := hcourse.completes hbuilt hnamed
      exact ⟨a, built, rfl, hcompletes.composed⟩
    · exact absurd hd hno
  · intro i j s s' hij hi hj hsame
    obtain ⟨hd, _⟩ | ⟨_, rfl, aliasName, first, second, rfl⟩ := Composition.course_compose h
    · have hlt : j < (root.contexts.map (·.aliasName)).length := by
        rw [List.length_map]
        exact (List.getElem?_eq_some_iff.1 hj).1
      have heq : (root.contexts.map (·.aliasName))[i]? = (root.contexts.map (·.aliasName))[j]? := by
        rw [List.getElem?_map, List.getElem?_map, hi, hj, Option.map_some, Option.map_some, hsame]
      have hplaces := (List.getElem?_inj (by omega) hd).1 heq
      omega
    · exact ⟨rfl, _, rfl, rfl, rfl⟩

/-- A hotel with a desk is composed. One that is itself under the alias of its desk is refused. -/
theorem composed_of_distinct_sample :
    let w := Sample.surroundings (fun _ => none) fun _ => none
    let t := w.traceOf (compose Sample.hotel)
    let twins := { Sample.hotel with aliasName := "desk" }
    (Sample.hotel.Distinct ∧ (∀ s ∈ Sample.hotel.contexts, s.Named) ∧
      (∀ c ∈ t.constructions, ∃ i, c.2 = .ok i) ∧
      ∃ a built, w.resultOf (compose Sample.hotel) = .ok a ∧ Sample.hotel.Composed t a built) ∧
    (twins.contexts.map (·.aliasName) = ["desk", "desk"] ∧ w.traceOf (compose twins) = [] ∧
      ∃ b, w.resultOf (compose twins) = .error b ∧ b.fault.kind = "CompositionError") := by
  intro w t twins
  constructor
  · have hok : ∀ c ∈ t.constructions, ∃ i, c.2 = .ok i := by
      intro c hc
      have hall : t.constructions.all (fun c => c.2.toBool) = true := by
        unfold t Surroundings.traceOf
        rw [Sample.compose_hotel]
        decide +kernel
      exact exists_of_toBool (List.all_eq_true.1 hall c hc)
    exact ⟨Sample.distinct_hotel, Sample.named_hotel, hok,
      (composed_of_distinct (w.runs_traceOf _)).1 Sample.distinct_hotel Sample.named_hotel hok⟩
  · have hplaces : ∀ i < 2, twins.contexts[i]?.map (·.aliasName) = some "desk" := by decide +kernel
    obtain ⟨s, hs, hname⟩ := Option.map_eq_some_iff.1 (hplaces 0 (by decide))
    obtain ⟨s', hs', hname'⟩ := Option.map_eq_some_iff.1 (hplaces 1 (by decide))
    obtain ⟨ht, b, hb, hkind, _⟩ := (composed_of_distinct (w.runs_traceOf (compose twins))).2 0 1 s s'
      (by decide) hs hs' (hname.trans hname'.symm)
    exact ⟨by decide +kernel, ht, b, hb, hkind⟩

end Rehearsal
