import Rehearsal.Proofs.Composition

/-! The course of a composition. Factories are called one after the other, each for the context that comes
next in the walk, and the arena mirrors what was walked: the node of a context has the place of the context,
and refers to the place of the context above it. Where a factory fails the arena is handed back as far as
it got. -/

namespace Rehearsal
set_option autoImplicit false

/-- The nodes of an arena are instances of contexts, each under its own alias. -/
structure Arena.Holds (a : Arena) (specs : List ContextSpec) (built : List Instance) : Prop where
  aliases : a.aliases = specs.map (·.aliasName)
  instances : a.nodes.map (·.inst) = built
  distinct : a.aliases.Nodup

/-- A node stands for the context that a walk comes to at a place: it has what the context has, and its
parent is the place of the context above. -/
structure Node.StandsFor (n : Node) (walk : List (ContextSpec × Option ContextSpec)) (i : Nat)
    (s : ContextSpec) (parent : Option ContextSpec) : Prop where
  aliasName : n.aliasName = s.aliasName
  capabilities : ∀ tag, tag ∈ n.capabilities ↔ tag ∈ s.capabilities ∨ tag ∈ s.factory.capabilities
  root : parent = none → i = 0 ∧ n.parent = none
  under : ∀ p, parent = some p → ∃ j < i, n.parent = some j ∧ walk[j]?.map (·.1) = some p

/-- An arena mirrors a walk: its nodes stand for what the walk comes to, place by place. -/
structure Arena.Mirrors (a : Arena) (walk : List (ContextSpec × Option ContextSpec))
    (built : List Instance) : Prop extends a.Holds (walk.map (·.1)) built where
  nodes : ∀ i s parent, walk[i]? = some (s, parent) →
    ∃ n : Node, a.nodes[i]? = some n ∧ n.StandsFor walk i s parent

namespace Arena
variable {a b : Arena} {specs : List ContextSpec} {built : List Instance}
  {walk : List (ContextSpec × Option ContextSpec)}

theorem Holds.add {s : ContextSpec} {node : Node} (h : a.Holds specs built)
    (hs : node.aliasName = s.aliasName) (hb : a.add node = .ok b) :
    b.Holds (specs ++ [s]) (built ++ [node.inst]) := by
  refine ⟨?_, ?_, nodup_aliases_add hb h.distinct⟩
  · rw [aliases_add hb, h.aliases, hs, List.map_append]
    rfl
  · obtain ⟨_, rfl⟩ := add_eq_ok_iff.1 hb
    rw [List.map_append, h.instances]
    rfl

theorem Holds.size_eq (h : a.Holds specs built) : a.size = specs.length := by
  have haliases := congrArg List.length h.aliases
  rwa [length_aliases, List.length_map] at haliases

theorem Holds.length_eq (h : a.Holds specs built) : built.length = specs.length := by
  rw [← h.instances, List.length_map, ← h.size_eq, size]

theorem find?_eq_some_iff (h : a.aliases.Nodup) {aliasName : String} {j : Nat} :
    a.find? aliasName = some j ↔ a.aliases[j]? = some aliasName := by
  rw [find?, List.findIdx?_eq_some_iff_getElem, aliases, List.getElem?_map]
  constructor
  · rintro ⟨hj, hname, _⟩
    rw [List.getElem?_eq_getElem hj, Option.map_some, eq_of_beq hname]
  · intro hname
    obtain ⟨n, hn, hname⟩ := Option.map_eq_some_iff.1 hname
    obtain ⟨hj, rfl⟩ := List.getElem?_eq_some_iff.1 hn
    refine ⟨hj, beq_iff_eq.2 hname, ?_⟩
    intro i hi hsame
    have hne : a.nodes[i].aliasName ≠ a.nodes[j].aliasName :=
      List.pairwise_iff_getElem.1 (List.pairwise_map.1 h) i j (by omega) hj hi
    exact hne ((eq_of_beq hsame).trans hname.symm)

theorem mem_numbered {n : Node} {i : Nat} : (n, i) ∈ a.numbered ↔ a.nodes[i]? = some n :=
  List.mk_mem_zipIdx_iff_getElem?

theorem mirrors_empty : empty.Mirrors [] [] := by
  refine ⟨⟨rfl, rfl, List.nodup_nil⟩, ?_⟩
  intro i s parent hi
  cases hi

theorem standsFor_append {n : Node} {i : Nat} {s : ContextSpec} {parent : Option ContextSpec}
    {more : List (ContextSpec × Option ContextSpec)} (hi : i ≤ walk.length)
    (h : n.StandsFor walk i s parent) : n.StandsFor (walk ++ more) i s parent := by
  refine ⟨h.aliasName, h.capabilities, h.root, ?_⟩
  intro p hp
  obtain ⟨j, hj, hparent, hwalk⟩ := h.under p hp
  refine ⟨j, hj, hparent, ?_⟩
  rwa [List.getElem?_append_left (by omega)]

/-- The node that is made for the next context is under the place of its parent. -/
theorem Mirrors.standsFor_next {s : ContextSpec} {parent : Option ContextSpec}
    {rest more : List (ContextSpec × Option ContextSpec)} (h : a.Mirrors walk built)
    (hd : ContextSpec.Descends (walk.map (·.1)) ((s, parent) :: rest)) (inst : Instance) :
    Node.StandsFor ⟨s.aliasName, inst, s.effectiveCapabilities,
      parent.bind fun p => a.find? p.aliasName⟩ (walk ++ more) walk.length s parent := by
  obtain ⟨hfirst, hunder, _⟩ := hd.of_cons
  refine ⟨rfl, fun _ => ContextSpec.mem_effectiveCapabilities, ?_, ?_⟩
  · intro hnone
    have hnil : walk = [] := List.map_eq_nil_iff.1 (hfirst hnone)
    subst hnone hnil
    exact ⟨rfl, rfl⟩
  · intro p hp
    obtain ⟨q, hq, rfl⟩ := List.mem_map.1 (hunder p hp)
    obtain ⟨j, hj⟩ := List.mem_iff_getElem?.1 hq
    have hlt : j < walk.length := (List.getElem?_eq_some_iff.1 hj).1
    have hfind : a.find? q.1.aliasName = some j := by
      rw [find?_eq_some_iff h.distinct, h.aliases, List.map_map, List.getElem?_map, hj]
      rfl
    subst hp
    refine ⟨j, hlt, hfind, ?_⟩
    rw [List.getElem?_append_left hlt, hj]
    rfl

theorem Mirrors.add {s : ContextSpec} {parent : Option ContextSpec} {inst : Instance}
    {rest : List (ContextSpec × Option ContextSpec)} (h : a.Mirrors walk built)
    (hd : ContextSpec.Descends (walk.map (·.1)) ((s, parent) :: rest))
    (hb : a.add ⟨s.aliasName, inst, s.effectiveCapabilities,
      parent.bind fun p => a.find? p.aliasName⟩ = .ok b) :
    b.Mirrors (walk ++ [(s, parent)]) (built ++ [inst]) := by
  have hholds := h.toHolds.add (s := s) rfl hb
  refine ⟨by rwa [List.map_append], ?_⟩
  obtain ⟨_, rfl⟩ := add_eq_ok_iff.1 hb
  have hsize : a.nodes.length = walk.length := by
    have hlen := h.size_eq
    rwa [size, List.length_map] at hlen
  intro i s' parent' hi
  -- A place of before keeps its node, which refers to places of before only.
  by_cases hlt : i < walk.length
  · rw [List.getElem?_append_left hlt] at hi
    obtain ⟨n, hn, hstands⟩ := h.nodes i s' parent' hi
    refine ⟨n, ?_, standsFor_append (by omega) hstands⟩
    rwa [List.getElem?_append_left (by omega)]
  · have hlast : i = walk.length := by
      have hi' := (List.getElem?_eq_some_iff.1 hi).1
      rw [List.length_append, List.length_singleton] at hi'
      omega
    subst hlast
    rw [List.getElem?_concat_length] at hi
    cases hi
    refine ⟨_, ?_, h.standsFor_next hd inst⟩
    rw [← hsize, List.getElem?_concat_length]

theorem Mirrors.standsFor {i : Nat} {n : Node} (h : a.Mirrors walk built) (hn : a.nodes[i]? = some n) :
    ∃ s parent, walk[i]? = some (s, parent) ∧ n.StandsFor walk i s parent := by
  have hlt : i < walk.length := by
    have hsize := h.size_eq
    rw [List.length_map] at hsize
    rw [← hsize]
    exact (List.getElem?_eq_some_iff.1 hn).1
  obtain ⟨m, hm, hstands⟩ := h.nodes i _ _ (List.getElem?_eq_getElem hlt)
  cases hn.symm.trans hm
  exact ⟨_, _, List.getElem?_eq_getElem hlt, hstands⟩

theorem Mirrors.parent_lt {i p : Nat} {n : Node} (h : a.Mirrors walk built)
    (hn : a.nodes[i]? = some n) (hp : n.parent = some p) : p < i := by
  obtain ⟨s, parent, _, hstands⟩ := h.standsFor hn
  cases parent with
  | none =>
    rw [(hstands.root rfl).2] at hp
    cases hp
  | some q =>
    obtain ⟨j, hj, hparent, _⟩ := hstands.under q rfl
    cases hparent.symm.trans hp
    exact hj

end Arena

/-- The parameters of a context are given by name, as its factory is called with them. -/
def ContextSpec.Named (s : ContextSpec) : Prop :=
  ∃ params, Composition.namedParams s.params = .ok params

namespace Composition
variable {t : Trace}

/-- How a context is constructed: its factory is called once, unless its parameters have no names. -/
inductive Constructing (s : ContextSpec) : Trace → Except Fault Instance → Prop
  | called {params : List (String × Value)} (r : Except Fault Instance) (m : Bool) :
      namedParams s.params = .ok params → Constructing s [⟨.construct s.factory params, r, m⟩] r
  | unnamed {f : Fault} : namedParams s.params = .error f → Constructing s [] (.error f)

theorem constructing_of_runs {s : ContextSpec} {r : Except Fault Instance}
    (h : (construct s).Runs t r) : Constructing s t r := by
  rw [construct] at h
  split at h
  · rename_i f hf
    obtain ⟨rfl, rfl⟩ := Program.runs_done_iff.1 h
    exact .unnamed hf
  · rename_i params hparams
    obtain ⟨m, rfl⟩ := Program.runs_request_iff.1 h
    exact .called r m hparams

/-- Factories that return: they are called for contexts one after the other. -/
inductive Builds : List ContextSpec → List Instance → Trace → Prop
  | nil : Builds [] [] []
  | cons {s : ContextSpec} {specs : List ContextSpec} {i : Instance} {built : List Instance}
      {params : List (String × Value)} {t : Trace} (m : Bool) :
      namedParams s.params = .ok params → Builds specs built t →
        Builds (s :: specs) (i :: built) (⟨.construct s.factory params, .ok i, m⟩ :: t)

/-- What a composition that fails leaves: nothing, or what was built, and told where it is. -/
inductive Leaves (walk : List (ContextSpec × Option ContextSpec)) (built : List Instance) :
    Trace → Option Arena → Prop
  | nothing : built = [] → Leaves walk built [] none
  | handed {a : Arena} (m : Bool) : built ≠ [] → a.Mirrors walk built →
      Leaves walk built [⟨.attach a, (), m⟩] (some a)

theorem leaves_of_salvage {a : Arena} {walk : List (ContextSpec × Option ContextSpec)}
    {built : List Instance} {o : Option Arena} (ha : a.Mirrors walk built)
    (h : (salvage a).Runs t o) : Leaves walk built t o := by
  have hbuilt : a.nodes.map (·.inst) = built := ha.instances
  rcases runs_salvage h with ⟨hn, rfl, rfl⟩ | ⟨hn, rfl, m, rfl⟩
  · exact .nothing (by rw [← hbuilt, hn, List.map_nil])
  · exact .handed m (by rwa [← hbuilt, Ne, List.map_eq_nil_iff]) ha

/-- Composing what is left of a walk completes it: all contexts are constructed and told where they are. -/
inductive Completes (done : List (ContextSpec × Option ContextSpec)) (before : List Instance)
    (rest : List (ContextSpec × Option ContextSpec)) (built : List Instance) : Trace → Arena → Prop
  | attached {t : Trace} {a : Arena} (m : Bool) :
      Builds (rest.map (·.1)) built t → a.Mirrors (done ++ rest) (before ++ built) →
        Completes done before rest built (t ++ [⟨.attach a, (), m⟩]) a

/-- Composing what is left of a walk fails at a factory, which raises a fault that is contained. The contexts
before it are left. -/
inductive Fails (done : List (ContextSpec × Option ContextSpec)) (before : List Instance)
    (rest : List (ContextSpec × Option ContextSpec)) (built : List Instance) (f : Fault) :
    Trace → Broken → Prop
  | raised {s : ContextSpec} {parent : Option ContextSpec} {t u : Trace}
      {params : List (String × Value)} {salvaged : Option Arena} (m : Bool) :
      rest[built.length]? = some (s, parent) → Builds ((rest.take built.length).map (·.1)) built t →
        namedParams s.params = .ok params → escapes f = false →
        Leaves (done ++ rest.take built.length) (before ++ built) u salvaged →
        Fails done before rest built f (t ++ ⟨.construct s.factory params, .error f, m⟩ :: u)
          ⟨.construction s.aliasName s.identity f, salvaged⟩

/-- The course that composing takes with what is left of a walk. It is completed; or a factory is interrupted;
or one fails; or one could not be called, and then those before are left too. -/
inductive Course (done : List (ContextSpec × Option ContextSpec)) (before : List Instance)
    (rest : List (ContextSpec × Option ContextSpec)) : Trace → Except Broken Arena → Prop
  | complete {t : Trace} {built : List Instance} {a : Arena} :
      Completes done before rest built t a → Course done before rest t (.ok a)
  | escaped {s : ContextSpec} {parent : Option ContextSpec} {t : Trace} {built : List Instance}
      {params : List (String × Value)} {f : Fault} (m : Bool) :
      rest[built.length]? = some (s, parent) → Builds ((rest.take built.length).map (·.1)) built t →
        namedParams s.params = .ok params → escapes f = true →
        Course done before rest (t ++ [⟨.construct s.factory params, .error f, m⟩])
          (.error ⟨f, none⟩)
  | failed {t : Trace} {built : List Instance} {f : Fault} {b : Broken} :
      Fails done before rest built f t b → Course done before rest t (.error b)
  | unnamed {s : ContextSpec} {parent : Option ContextSpec} {t u : Trace} {built : List Instance}
      {f : Fault} {salvaged : Option Arena} :
      rest[built.length]? = some (s, parent) → Builds ((rest.take built.length).map (·.1)) built t →
        namedParams s.params = .error f →
        Leaves (done ++ rest.take built.length) (before ++ built) u salvaged →
        Course done before rest (t ++ u)
          (.error ⟨.construction s.aliasName s.identity f, salvaged⟩)

section Cons
variable {done rest : List (ContextSpec × Option ContextSpec)} {before built : List Instance}
  {s : ContextSpec} {parent : Option ContextSpec} {i : Instance} {params : List (String × Value)}

theorem Completes.cons {a : Arena} (m : Bool) (hs : namedParams s.params = .ok params)
    (h : Completes (done ++ [(s, parent)]) (before ++ [i]) rest built t a) :
    Completes done before ((s, parent) :: rest) (i :: built)
      (⟨.construct s.factory params, .ok i, m⟩ :: t) a := by
  cases h with
  | attached m' hb ha =>
    rw [List.append_assoc, List.append_assoc] at ha
    exact .attached (t := _ :: _) m' (.cons m hs hb) ha

theorem Fails.cons {f : Fault} {b : Broken} (m : Bool) (hs : namedParams s.params = .ok params)
    (h : Fails (done ++ [(s, parent)]) (before ++ [i]) rest built f t b) :
    Fails done before ((s, parent) :: rest) (i :: built) f
      (⟨.construct s.factory params, .ok i, m⟩ :: t) b := by
  cases h with
  | raised m' hat hb hp hf hl =>
    rw [List.append_assoc, List.append_assoc] at hl
    exact .raised (t := _ :: _) m' hat (.cons m hs hb) hp hf hl

theorem Course.cons {r : Except Broken Arena} (m : Bool) (hs : namedParams s.params = .ok params)
    (h : Course (done ++ [(s, parent)]) (before ++ [i]) rest t r) :
    Course done before ((s, parent) :: rest) (⟨.construct s.factory params, .ok i, m⟩ :: t) r := by
  cases h with
  | complete h => exact .complete (h.cons m hs)
  | @escaped s' parent' _ built _ _ m' hat hb hp hf =>
    have hnext : ((s, parent) :: rest)[(i :: built).length]? = some (s', parent') := hat
    exact .escaped (t := _ :: _) m' hnext (.cons m hs hb) hp hf
  | failed h => exact .failed (h.cons m hs)
  | @unnamed s' parent' _ _ built _ _ hat hb hp hl =>
    rw [List.append_assoc, List.append_assoc] at hl
    have hnext : ((s, parent) :: rest)[(i :: built).length]? = some (s', parent') := hat
    exact .unnamed (t := _ :: _) hnext (.cons m hs hb) hp hl

end Cons

/-- Composing what is left of a walk, by induction on it: the arena mirrors what was walked, and no alias
that is still to come is taken. -/
theorem course_composeFrom {a : Arena} {done rest : List (ContextSpec × Option ContextSpec)}
    {before : List Instance} {r : Except Broken Arena} (ha : a.Mirrors done before)
    (hd : ContextSpec.Descends (done.map (·.1)) rest)
    (hn : ((done ++ rest).map (·.1.aliasName)).Nodup) (h : (composeFrom a rest).Runs t r) :
    Course done before rest t r := by
  induction rest generalizing a done before t with
  | nil =>
    obtain ⟨rfl, m, rfl⟩ := runs_attach h
    exact .complete (.attached (t := []) m .nil (by simpa using ha))
  | cons p rest ih =>
    obtain ⟨s, parent⟩ := p
    have hleft : ∀ {u : Trace} {o : Option Arena}, (salvage a).Runs u o →
        Leaves (done ++ ((s, parent) :: rest).take 0) (before ++ []) u o := by
      intro u o hu
      rw [List.take_zero, List.append_nil, List.append_nil]
      exact leaves_of_salvage ha hu
    have hfirst : ((s, parent) :: rest)[([] : List Instance).length]? = some (s, parent) := rfl
    cases runs_composeFrom_cons h with
    | escaped u hu he =>
      cases constructing_of_runs hu with
      | called _ m hp => exact .escaped (t := []) m hfirst .nil hp he
      | unnamed hp => cases he.symm.trans (escapes_namedParams hp)
    | failed u v hu he hv =>
      cases constructing_of_runs hu with
      | called _ m hp => exact .failed (.raised (t := []) m hfirst .nil hp he (hleft hv))
      | unnamed hp => exact .unnamed (t := []) hfirst .nil hp (hleft hv)
    | clashed u hu hf =>
      -- The alias would have to be that of a context before this one.
      rw [Arena.add] at hf
      split at hf
      · rename_i htaken
        rw [Arena.has_iff, ha.aliases, List.map_map] at htaken
        rw [List.map_append, List.nodup_append] at hn
        exact absurd rfl (hn.2.2 _ htaken _ List.mem_cons_self)
      · cases hf
    | placed u v hu hb hv =>
      cases constructing_of_runs hu with
      | called _ m hp =>
        have hdown : ContextSpec.Descends ((done ++ [(s, parent)]).map (·.1)) rest := by
          rw [List.map_append]
          exact hd.of_cons.2.2
        refine .cons m hp (ih (ha.add hd hb) hdown ?_ hv)
        rwa [List.append_assoc]

/-- A tree whose aliases are not distinct is refused, and nothing is called. Otherwise composing takes its
course. -/
theorem course_compose {root : ContextSpec} {r : Except Broken Arena} (h : (compose root).Runs t r) :
    root.Distinct ∧ Course [] [] (root.preorder none) t r ∨
      ¬ root.Distinct ∧ t = [] ∧
        ∃ aliasName first second, r = .error ⟨.aliasTaken aliasName first second, none⟩ := by
  obtain ⟨hd, all, hall⟩ | ⟨hd, aliasName, first, second, htaken⟩ := root.validate_ends
  · rw [compose, hall, ContextSpec.walk_eq_preorder] at h
    refine .inl ⟨hd, course_composeFrom Arena.mirrors_empty root.descends_preorder ?_ h⟩
    rwa [ContextSpec.Distinct, ContextSpec.contexts, List.map_map] at hd
  · rw [compose, htaken] at h
    obtain ⟨rfl, rfl⟩ := Program.runs_done_iff.1 h
    exact .inr ⟨hd, rfl, aliasName, first, second, rfl⟩

end Composition
end Rehearsal
