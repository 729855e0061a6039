import Rehearsal.Proofs.Contexts.Composed

/-! Contexts that are found by what they are capable of. What a query finds depends on the contexts that
meet it and on nothing else: one of them is found, several are ambiguous, and where there is none nothing
is found. A query for fewer tags is met by more contexts. -/

namespace Rehearsal
set_option autoImplicit false

namespace CapabilityQuery

/-- A context meets a query: its instance is one of the class; or it has the tag, or all of the tags and
there are some, by its declaration or by that of its factory. -/
def MetBy (q : CapabilityQuery) (s : ContextSpec) (i : Instance) : Prop :=
  match q with
  | ofClass id _ => id ∈ i.lineage
  | tag name => name ∈ s.capabilities ∨ name ∈ s.factory.capabilities
  | tags names => names ≠ [] ∧
      ∀ name ∈ names, name ∈ s.capabilities ∨ name ∈ s.factory.capabilities

/-- The context at a place, of those that were built, meets a query. -/
def MetAt (q : CapabilityQuery) (specs : List ContextSpec) (built : List Instance) (m : Nat) : Prop :=
  ∃ s i, specs[m]? = some s ∧ built[m]? = some i ∧ q.MetBy s i

theorem provides_iff {q : CapabilityQuery} {n : Node}
    {walk : List (ContextSpec × Option ContextSpec)} {i : Nat} {s : ContextSpec}
    {parent : Option ContextSpec} (h : n.StandsFor walk i s parent) :
    q.provides n = true ↔ q.MetBy s n.inst := by
  cases q with
  | ofClass id name => exact List.contains_iff_mem
  | tag name => exact List.contains_iff_mem.trans (h.capabilities name)
  | tags names =>
    rw [provides, MetBy, Bool.and_eq_true, List.all_eq_true]
    refine and_congr (by simp) (forall₂_congr fun name _ => ?_)
    exact List.contains_iff_mem.trans (h.capabilities name)

theorem MetAt.of_subset {few many : List String} {specs : List ContextSpec} {built : List Instance}
    {m : Nat} (hne : few ≠ []) (hsub : few ⊆ many) (h : (tags many).MetAt specs built m) :
    (tags few).MetAt specs built m := by
  obtain ⟨s, i, hs, hi, _, hall⟩ := h
  exact ⟨s, i, hs, hi, hne, fun name hname => hall name (hsub hname)⟩

end CapabilityQuery

/-- What a query is answered in an arena of contexts: the one place where it is met; or that there is none;
or the aliases of all the places, in order. -/
inductive Arena.Reply (a : Arena) (specs : List ContextSpec) (built : List Instance)
    (q : CapabilityQuery) : Except Fault Arena.Place → Prop
  | nobody : (∀ m, ¬ q.MetAt specs built m) → Reply a specs built q (.error (.noCapability q.shown))
  | one {m : Nat} : q.MetAt specs built m → (∀ m', q.MetAt specs built m' → m' = m) →
      Reply a specs built q (.ok ⟨a, m⟩)
  | several {ms : List Nat} {aliases : List String} : 1 < ms.length → ms.Pairwise (· < ·) →
      (∀ m, m ∈ ms ↔ q.MetAt specs built m) →
      List.Forall₂ (fun m aliasName => specs[m]?.map (·.aliasName) = some aliasName) ms aliases →
      Reply a specs built q (.error (.ambiguousCapability q.shown aliases))

namespace Arena
variable {a : Arena} {walk : List (ContextSpec × Option ContextSpec)} {built : List Instance}

theorem Mirrors.metAt_iff (h : a.Mirrors walk built) {q : CapabilityQuery} {m : Nat} :
    q.MetAt (walk.map (·.1)) built m ↔ ∃ n, a.nodes[m]? = some n ∧ q.provides n = true := by
  have hbuilt : ∀ {n : Node}, a.nodes[m]? = some n → built[m]? = some n.inst := by
    intro n hn
    rw [← h.instances, List.getElem?_map, hn]
    rfl
  constructor
  · rintro ⟨s, i, hs, hi, hmet⟩
    rw [List.getElem?_map] at hs
    obtain ⟨⟨s, parent⟩, hat, rfl⟩ := Option.map_eq_some_iff.1 hs
    obtain ⟨n, hn, hstands⟩ := h.nodes m s parent hat
    cases hi.symm.trans (hbuilt hn)
    exact ⟨n, hn, (CapabilityQuery.provides_iff hstands).2 hmet⟩
  · rintro ⟨n, hn, hprovides⟩
    obtain ⟨s, parent, hat, hstands⟩ := h.standsFor hn
    refine ⟨s, n.inst, ?_, hbuilt hn, (CapabilityQuery.provides_iff hstands).1 hprovides⟩
    rw [List.getElem?_map, hat]
    rfl

/-- The places of an arena that provide what a query asks for are those where it is met. -/
theorem Mirrors.reply (h : a.Mirrors walk built) (q : CapabilityQuery) (id : Nat) :
    a.Reply (walk.map (·.1)) built q (Place.resolveByCapability ⟨a, id⟩ q) := by
  rw [Place.resolveByCapability, resolveByCapability]
  generalize hfound : (a.numbered.filter fun n => q.provides n.1) = found
  have hmet : ∀ m, m ∈ found.map (·.2) ↔ q.MetAt (walk.map (·.1)) built m := by
    intro m
    rw [h.metAt_iff, List.mem_map, ← hfound]
    constructor
    · rintro ⟨⟨n, m⟩, hm, rfl⟩
      obtain ⟨hn, hprovides⟩ := List.mem_filter.1 hm
      exact ⟨n, mem_numbered.1 hn, hprovides⟩
    · rintro ⟨n, hn, hprovides⟩
      exact ⟨(n, m), List.mem_filter.2 ⟨mem_numbered.2 hn, hprovides⟩, rfl⟩
  rcases found with _ | ⟨n, _ | ⟨n', rest⟩⟩
  · refine .nobody ?_
    intro m hm
    cases (hmet m).2 hm
  · refine .one ((hmet _).1 List.mem_cons_self) ?_
    intro m' hm'
    exact List.mem_singleton.1 ((hmet m').2 hm')
  · refine .several ?_ ?_ hmet ?_
    · simp
    · rw [List.pairwise_map, ← hfound]
      exact (pairwise_zipIdx a.nodes).filter _
    · rw [List.forall₂_map_left_iff, List.forall₂_map_right_iff, List.forall₂_same]
      intro p hp
      rw [← hfound] at hp
      have hn := mem_numbered.1 (List.mem_filter.1 hp).1
      obtain ⟨s, parent, hat, hstands⟩ := h.standsFor hn
      rw [List.getElem?_map, hat, hstands.aliasName]
      rfl

section Reply
variable {specs : List ContextSpec} {q : CapabilityQuery} {r : Except Fault Place}

theorem Reply.eq_ok_iff (h : a.Reply specs built q r) {m : Nat} :
    r = .ok ⟨a, m⟩ ↔ q.MetAt specs built m ∧ ∀ m', q.MetAt specs built m' → m' = m := by
  cases h with
  | nobody hno => exact iff_of_false nofun fun hm => hno m hm.1
  | @one m₀ hmet honly =>
    constructor
    · intro heq
      cases heq
      exact ⟨hmet, honly⟩
    · rintro ⟨hm, _⟩
      rw [honly m hm]
  | @several ms aliases hlen hsorted hmem haliases =>
    refine iff_of_false nofun ?_
    rintro ⟨_, honly⟩
    have hfirst := List.pairwise_iff_getElem.1 hsorted 0 1 (by omega) hlen Nat.one_pos
    have hzero := honly _ ((hmem _).1 (List.getElem_mem (n := 0) (by omega)))
    have hone := honly _ ((hmem _).1 (List.getElem_mem hlen))
    omega

theorem Reply.eq_noCapability_iff (h : a.Reply specs built q r) :
    r = .error (.noCapability q.shown) ↔ ∀ m, ¬ q.MetAt specs built m := by
  cases h with
  | nobody hno => exact iff_of_true rfl hno
  | one hmet _ => exact iff_of_false nofun fun hno => hno _ hmet
  | @several ms aliases hlen _ hmem _ =>
    exact iff_of_false nofun fun hno => hno _ ((hmem _).1 (List.getElem_mem hlen))

theorem Reply.ambiguous (h : a.Reply specs built q r) {m m' : Nat} (hne : m ≠ m')
    (hm : q.MetAt specs built m) (hm' : q.MetAt specs built m') :
    ∃ ms aliases, ms.Pairwise (· < ·) ∧ (∀ m, m ∈ ms ↔ q.MetAt specs built m) ∧
      List.Forall₂ (fun m aliasName => specs[m]?.map (·.aliasName) = some aliasName) ms aliases ∧
      r = .error (.ambiguousCapability q.shown aliases) := by
  cases h with
  | nobody hno => exact absurd hm (hno m)
  | one _ honly => exact absurd ((honly m hm).trans (honly m' hm').symm) hne
  | several _ hsorted hmem haliases => exact ⟨_, _, hsorted, hmem, haliases, rfl⟩

end Reply
end Arena

structure ContextSpec.Finds (root : ContextSpec) (built : List Instance) (a : Arena) : Prop where
  /-- A place is found where it is the only one at which the query is met. -/
  found : ∀ q id m, Arena.Place.resolveByCapability ⟨a, id⟩ q = .ok ⟨a, m⟩ ↔
    q.MetAt root.contexts built m ∧ ∀ m', q.MetAt root.contexts built m' → m' = m
  within : ∀ q id p, Arena.Place.resolveByCapability ⟨a, id⟩ q = .ok p → p.arena = a
  missing : ∀ q id, Arena.Place.resolveByCapability ⟨a, id⟩ q = .error (.noCapability q.shown) ↔
    ∀ m, ¬ q.MetAt root.contexts built m
  /-- Of several places the aliases are listed, in the order of the places. -/
  ambiguous : ∀ q id m m', m ≠ m' → q.MetAt root.contexts built m → q.MetAt root.contexts built m' →
    ∃ ms aliases, ms.Pairwise (· < ·) ∧ (∀ m, m ∈ ms ↔ q.MetAt root.contexts built m) ∧
      List.Forall₂ (fun m aliasName => root.contexts[m]?.map (·.aliasName) = some aliasName)
        ms aliases ∧
      Arena.Place.resolveByCapability ⟨a, id⟩ q = .error (.ambiguousCapability q.shown aliases)
  same : ∀ q id id', Arena.Place.resolveByCapability ⟨a, id⟩ q =
    Arena.Place.resolveByCapability ⟨a, id'⟩ q
  /-- Whoever is found by many tags is found by fewer, or is among those found. -/
  fewer : ∀ few many id m, few ≠ [] → few ⊆ many →
    Arena.Place.resolveByCapability ⟨a, id⟩ (.tags many) = .ok ⟨a, m⟩ →
    Arena.Place.resolveByCapability ⟨a, id⟩ (.tags few) = .ok ⟨a, m⟩ ∨
      ∃ aliases aliasName, Arena.Place.resolveByCapability ⟨a, id⟩ (.tags few) =
          .error (.ambiguousCapability (CapabilityQuery.tags few).shown aliases) ∧
        root.contexts[m]?.map (·.aliasName) = some aliasName ∧ aliasName ∈ aliases

/-- A hotel that has rooms and keys, with a desk that has keys. -/
def Sample.house : ContextSpec :=
  ⟨⟨Sample.callable 0 "Hotel", "Hotel", ["rooms"], none⟩, "main", .dict [], ["keys"],
    [.leaf ⟨Sample.callable 9 "Desk", "Desk", ["keys"], none⟩ "desk"]⟩

/-- In every arena that a tree is composed to a query finds what it should. -/
theorem finds_of_compose {root : ContextSpec} {t : Trace} {a : Arena}
    (h : (compose root).Runs t (.ok a)) :
    ∃ built : List Instance,
      t.constructions = List.zipWith (fun s i => (s.factory, .ok i)) root.contexts built ∧
      root.Finds built a := by
  obtain ⟨_, built, hcomposed⟩ := composed_of_compose h
  have hreply : ∀ q id, a.Reply root.contexts built q (Arena.Place.resolveByCapability ⟨a, id⟩ q) :=
    fun q id => hcomposed.mirrors.reply q id
  refine ⟨built, hcomposed.constructions, ?_, ?_, ?_, ?_, fun _ _ _ => rfl, ?_⟩
  · intro q id m
    exact (hreply q id).eq_ok_iff
  · intro q id p hp
    have hr := hreply q id
    rw [hp] at hr
    cases hr
    rfl
  · intro q id
    exact (hreply q id).eq_noCapability_iff
  · intro q id m m' hne hm hm'
    exact (hreply q id).ambiguous hne hm hm'
  · intro few many id m hne hsub hfound
    have hmet := ((hreply _ id).eq_ok_iff.1 hfound).1.of_subset hne hsub
    have hr := hreply (.tags few) id
    generalize Arena.Place.resolveByCapability ⟨a, id⟩ (.tags few) = r at hr
    cases hr with
    | nobody hno => exact absurd hmet (hno m)
    | one _ honly =>
      rw [honly m hmet]
      exact .inl rfl
    | several _ _ hmem haliases =>
      -- Who has all the tags has these, and is therefore listed.
      obtain ⟨aliasName, hlisted, hname⟩ := exists_left_of_forall₂ haliases.flip ((hmem m).2 hmet)
      exact .inr ⟨_, aliasName, rfl, hname, hlisted⟩

/-- From the desk the hotel is found by its rooms and keys. -/
theorem finds_of_compose_sample :
    let w := Sample.surroundings (fun _ => none) fun _ => none
    ∃ a built, w.resultOf (compose Sample.house) = .ok a ∧ Sample.house.Finds built a ∧
      Arena.Place.resolveByCapability ⟨a, 1⟩ (.tags ["rooms", "keys"]) = .ok ⟨a, 0⟩ := by
  intro w
  have hvalid : ContextSpec.validateFrom [] Sample.house.contexts = .ok Sample.house.contexts := rfl
  have hcompose := compose_eq_composeFrom hvalid
  obtain ⟨a, ha⟩ : ∃ a, w.resultOf (compose Sample.house) = .ok a := by
    refine exists_of_toBool ?_
    rw [hcompose]
    decide +kernel
  obtain ⟨built, hbuilt, hfinds⟩ := finds_of_compose (ha ▸ w.runs_traceOf (compose Sample.house))
  refine ⟨a, built, ha, hfinds, (hfinds.found _ 1 0).2 ⟨?_, ?_⟩⟩
  · have hlen : (w.traceOf (compose Sample.house)).constructions.length = 2 := by
      rw [Surroundings.traceOf, hcompose]
      decide +kernel
    rw [hbuilt, List.length_zipWith] at hlen
    have hpos : 0 < built.length := by omega
    refine ⟨Sample.house, built[0], rfl, List.getElem?_eq_getElem hpos, nofun, ?_⟩
    decide +kernel
  · rintro m ⟨s, i, hs, _, _, hall⟩
    have hrooms := hall "rooms" List.mem_cons_self
    match m with
    | 0 => rfl
    | 1 =>
      cases hs
      revert hrooms
      decide +kernel
    | m + 2 => cases hs

end Rehearsal
