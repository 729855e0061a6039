import Rehearsal.Proofs.Contexts.Composed
import Rehearsal.Script.Serving

/-! Trees whose composition breaks off at a factory. What was built before is handed back as an arena of its
own. It is the front of the arena that the whole tree would have, and it is closed: a parent comes before
those under it, so no node refers to one that is missing. -/

namespace Rehearsal
set_option autoImplicit false

/-- What is found from the end of an arena on is about the last node that it can be about. -/
theorem Arena.find?_filterMap_numbered {α : Type} {a : Arena} {g : Node × Nat → Option α}
    {p : α → Bool} {n : Node} {i : Nat} {x : α} (hn : a.nodes[i]? = some n) (hg : g (n, i) = some x)
    (hp : p x = true) :
    ∃ j m y, (a.numbered.reverse.filterMap g).find? p = some y ∧ a.nodes[j]? = some m ∧
      g (m, j) = some y ∧ p y = true ∧ i ≤ j := by
  have hmem : (n, i) ∈ a.numbered.reverse := List.mem_reverse.2 (mem_numbered.2 hn)
  have hsome : (a.numbered.reverse.find? fun q => (g q).any p).isSome = true := by
    rw [List.find?_isSome]
    exact ⟨(n, i), hmem, by simp [hg, hp]⟩
  obtain ⟨⟨m, j⟩, hfound⟩ := Option.isSome_iff_exists.1 hsome
  obtain ⟨hany, before, after, hsplit, hbefore⟩ := List.find?_eq_some_iff_append.1 hfound
  obtain ⟨y, hy, hpy⟩ := (Option.any_eq_true _ _).1 hany
  have hm : a.nodes[j]? = some m :=
    mem_numbered.1 (List.mem_reverse.1 (List.mem_of_find?_eq_some hfound))
  refine ⟨j, m, y, by rw [List.find?_filterMap, hfound]; exact hy, hm, hy, hpy, ?_⟩
  have hsorted : a.numbered.reverse.Pairwise fun p q => q.2 < p.2 :=
    List.pairwise_reverse.2 (pairwise_zipIdx a.nodes)
  rw [hsplit] at hsorted hmem
  obtain ⟨_, hrest, _⟩ := List.pairwise_append.1 hsorted
  -- The node is not among those that were passed over, so it is the one found or before it.
  rcases List.mem_append.1 hmem with hmem | hmem
  · have hno := hbefore _ hmem
    simp [hg, hp] at hno
  · rcases List.mem_cons.1 hmem with heq | hmem
    · cases heq
      exact Nat.le_refl _
    · exact Nat.le_of_lt ((List.pairwise_cons.1 hrest).1 _ hmem)

/-- The instance of a node is an object that knows its place, once it is told. -/
def Node.KnowsPlace (n : Node) (id : Nat) : Prop :=
  (∃ kind, n.inst.value = .object kind id) ∧ Script.behaviourClass ∈ n.inst.lineage

theorem Script.World.told?_eq_some_iff {a b : Arena} {n : Node} {i j id : Nat} :
    told? a (n, i) = some (id, b, j) ↔ n.KnowsPlace id ∧ b = a ∧ j = i := by
  rw [told?, Node.KnowsPlace]
  split
  · rename_i kind id' hvalue
    dsimp only at hvalue ⊢
    rw [hvalue]
    by_cases hknows : behaviourClass ∈ n.inst.lineage
    · rw [if_pos (List.contains_iff_mem.2 hknows)]
      simp [hknows, eq_comm]
    · rw [if_neg (fun hc => hknows (List.contains_iff_mem.1 hc))]
      simp [hknows]
  · rename_i hno
    constructor
    · intro h
      cases h
    · rintro ⟨⟨⟨kind, hvalue⟩, _⟩, _⟩
      exact absurd hvalue (hno kind id)

/-- Every instance that knows its place knows that it is in an arena, at the last node that it is the
instance of. -/
def Arena.Attached (a : Arena) (w : Script.World) : Prop :=
  ∀ (i : Nat) (n : Node) (id : Nat), a.nodes[i]? = some n → n.KnowsPlace id →
    ∃ j m, w.placeOf? id = some (a, j) ∧ a.nodes[j]? = some m ∧ m.KnowsPlace id ∧ i ≤ j

theorem Script.attached_serve (h : Script.Host) (a : Arena) (w : Script.World) :
    a.Attached (Script.serve h (.attach a) w).2 := by
  intro i n id hn hknows
  have htold : World.told? a (n, i) = some (id, a, i) :=
    World.told?_eq_some_iff.2 ⟨hknows, rfl, rfl⟩
  obtain ⟨j, m, ⟨id', b, j'⟩, hfound, hm, hplace, hid, hle⟩ :=
    Arena.find?_filterMap_numbered (p := fun q => q.1 == id) hn htold (beq_self_eq_true id)
  obtain rfl := eq_of_beq hid
  obtain ⟨hknows', rfl, rfl⟩ := World.told?_eq_some_iff.1 hplace
  refine ⟨j', m, ?_, hm, hknows', hle⟩
  rw [serve, World.placeOf?, World.attach, List.find?_append, hfound]
  rfl

/-- The factories give what is foreseen, as far as they are asked: instances, and then a fault. -/
def Trace.Falters (t : Trace) (built : List Instance) (f : Fault) : Prop :=
  (t.constructions.map (·.2)).take (built.length + 1) <+: built.map .ok ++ [.error f]

section Falters
variable {t : Trace} {built more : List Instance} {f g : Fault}

theorem Trace.Falters.length_le (h : t.Falters built f)
    (hc : t.constructions.map (·.2) = more.map .ok) : more.length ≤ built.length := by
  by_contra hlt
  rw [Falters, hc] at h
  have hmem : (.error f : Except Fault Instance) ∈ built.map .ok ++ [.error f] :=
    List.mem_append_right _ List.mem_cons_self
  rw [← h.eq_of_length (by simp; omega)] at hmem
  exact Composition.not_mem_error_map_ok (List.mem_of_mem_take hmem)

theorem Trace.Falters.outcomes (h : t.Falters built f)
    (hc : t.constructions.map (·.2) = more.map .ok ++ [.error g]) :
    t.constructions.map (·.2) = built.map .ok ++ [.error f] := by
  rw [Falters, hc] at h
  rw [hc]
  clear hc
  induction built generalizing more with
  | nil =>
    cases more with
    | nil => simpa using h
    | cons i more => simp at h
  | cons j built ih =>
    cases more with
    | nil => simp at h
    | cons i more =>
      rw [List.map_cons, List.map_cons, List.cons_append, List.cons_append, List.length_cons,
        List.take_succ_cons, List.cons_prefix_cons] at h
      rw [List.map_cons, List.map_cons, List.cons_append, List.cons_append, h.1, ih h.2]

/-- A factory that is foreseen to fail is called, if it is that of a context and those up to it can be
called. -/
theorem Composition.Course.outcomes_of_falters
    {done rest : List (ContextSpec × Option ContextSpec)} {before : List Instance}
    {r : Except Broken Arena} (h : Course done before rest t r) (hf : t.Falters built f)
    (hk : built.length < rest.length)
    (hn : ∀ j ≤ built.length, ∀ s parent, rest[j]? = some (s, parent) → s.Named) :
    t.constructions.map (·.2) = built.map .ok ++ [.error f] := by
  obtain ⟨more, hmore, hends⟩ | ⟨more, g, hmore, _⟩ := h.outcomes
  · have hle := hf.length_le hmore
    obtain ⟨hlen, _⟩ | ⟨s, parent, hat, hunnamed⟩ := hends
    · omega
    · exact absurd (hn _ hle s parent hat) hunnamed
  · exact hf.outcomes hmore

end Falters

structure Node.Alike (n m : Node) : Prop where
  aliasName : n.aliasName = m.aliasName
  capabilities : ∀ tag, tag ∈ n.capabilities ↔ tag ∈ m.capabilities
  parent : n.parent = m.parent

theorem Node.StandsFor.alike {n m : Node} {walk : List (ContextSpec × Option ContextSpec)} {i k : Nat}
    {s : ContextSpec} {parent : Option ContextSpec} (hn : n.StandsFor (walk.take k) i s parent)
    (hm : m.StandsFor walk i s parent) (hd : (walk.map (·.1.aliasName)).Nodup) : n.Alike m := by
  refine ⟨hn.aliasName.trans hm.aliasName.symm, ?_, ?_⟩
  · intro tag
    rw [hn.capabilities, hm.capabilities]
  · cases parent with
    | none => rw [(hn.root rfl).2, (hm.root rfl).2]
    | some p =>
      obtain ⟨j, _, hj, hat⟩ := hn.under p rfl
      obtain ⟨j', _, hj', hat'⟩ := hm.under p rfl
      -- Both parents are places of the one alias.
      have hplace : (walk.map (·.1.aliasName))[j]? = some p.aliasName := by
        obtain ⟨q, hq, rfl⟩ := Option.map_eq_some_iff.1 hat
        rw [List.getElem?_take] at hq
        split at hq
        · rw [List.getElem?_map, hq]
          rfl
        · cases hq
      have hplace' : (walk.map (·.1.aliasName))[j']? = some p.aliasName := by
        obtain ⟨q, hq, rfl⟩ := Option.map_eq_some_iff.1 hat'
        rw [List.getElem?_map, hq]
        rfl
      have hlt := (List.getElem?_eq_some_iff.1 hplace).1
      rw [hj, hj', (List.getElem?_inj hlt hd).1 (hplace.trans hplace'.symm)]

/-- An arena of the contexts that come first in a tree. -/
structure ContextSpec.Salvages (root : ContextSpec) (built : List Instance) (a : Arena) : Prop where
  mirrors : a.Mirrors ((root.preorder none).take built.length) built
  closed : ∀ (i : Nat) (n : Node), a.nodes[i]? = some n → ∀ p, n.parent = some p → p < a.size
  rooted : ∀ id, Arena.Place.root ⟨a, id⟩ = .ok ⟨a, 0⟩
  attached : ∀ h w, a.Attached (Script.serve h (.attach a) w).2
  leads : a.Leads (root.contexts.take built.length)
  /-- It is the front of whatever arena the whole tree has. -/
  front : ∀ (u : Trace) (whole : Arena), (compose root).Runs u (.ok whole) → ∀ (i : Nat) (n : Node),
    a.nodes[i]? = some n → ∃ m, whole.nodes[i]? = some m ∧ n.Alike m

/-- A tree breaks off at the context whose factory raises a fault. -/
structure ContextSpec.BreaksOff (root : ContextSpec) (t : Trace) (built : List Instance) (f : Fault)
    (b : Broken) : Prop where
  fault : ∃ s, root.contexts[built.length]? = some s ∧
    b.fault = .construction s.aliasName s.identity f
  /-- The factories up to that one are called and no others. -/
  calls : ∃ orders, List.Forall₂ IsOrder (root.contexts.take (built.length + 1)) orders ∧
    t.requests = orders ++ b.salvaged.toList.map .attach
  outcomes : t.constructions.map (·.2) = built.map .ok ++ [.error f]
  nothing : built = [] → b.salvaged = none
  salvaged : built ≠ [] → ∃ a, b.salvaged = some a ∧ root.Salvages built a

theorem Arena.Mirrors.salvages {root : ContextSpec} {a : Arena} {built : List Instance}
    (ha : a.Mirrors ((root.preorder none).take built.length) built) (hne : built ≠ []) :
    root.Salvages built a := by
  refine ⟨ha, ?_, ?_, fun h w => Script.attached_serve h a w, ?_, ?_⟩
  · intro i n hn p hp
    have hi : i < a.size := (List.getElem?_eq_some_iff.1 hn).1
    have hbefore := ha.parent_lt hn hp
    omega
  · intro id
    refine Arena.place_of_lt ?_
    rw [ha.toHolds.size_eq.trans ha.toHolds.length_eq.symm]
    exact List.length_pos_iff.2 hne
  · rw [ContextSpec.contexts, ← List.map_take]
    exact ha.toHolds.leads
  · intro u whole hrun i n hn
    obtain ⟨hd, _, hcomposed⟩ := composed_of_compose hrun
    obtain ⟨s, parent, hat, hstands⟩ := ha.standsFor hn
    have hwhole : (root.preorder none)[i]? = some (s, parent) := by
      rw [List.getElem?_take] at hat
      split at hat
      · exact hat
      · cases hat
    obtain ⟨m, hm, hstands'⟩ := hcomposed.mirrors.nodes i s parent hwhole
    rw [ContextSpec.Distinct, ContextSpec.contexts, List.map_map] at hd
    exact ⟨m, hm, hstands.alike hstands' hd⟩

/-- The factory at some place of a tree raises an exception, and those before it return. Then composing
fails, and what was built is handed back, if there is anything. -/
theorem breaksOff_of_falters {root : ContextSpec} {t : Trace} {r : Except Broken Arena}
    {built : List Instance} {f : Fault} (h : (compose root).Runs t r) (hd : root.Distinct)
    (hk : built.length < root.contexts.length)
    (hn : ∀ s ∈ root.contexts.take (built.length + 1), s.Named)
    (hf : Composition.escapes f = false) (ht : t.Falters built f) :
    ∃ b, r = .error b ∧ b.fault.kind = "CompositionError" ∧ root.BreaksOff t built f b := by
  obtain ⟨_, hcourse⟩ | ⟨hno, _⟩ := Composition.course_compose h
  · have hlen : built.length < (root.preorder none).length := by
      rwa [ContextSpec.contexts, List.length_map] at hk
    have hgiven : t.constructions.map (·.2) = built.map .ok ++ [.error f] := by
      refine hcourse.outcomes_of_falters ht hlen ?_
      intro j hj s parent hat
      refine hn s (List.mem_of_getElem? (i := j) ?_)
      rw [List.getElem?_take_of_lt (by omega), ContextSpec.contexts, List.getElem?_map, hat]
      rfl
    obtain ⟨b, rfl, hfails⟩ := hcourse.fails hf hgiven
    refine ⟨b, rfl, ?_⟩
    cases hfails with
    | @raised s parent u v params salvaged m hat hb hp _ hl =>
      have hs : root.contexts[built.length]? = some s := by
        rw [ContextSpec.contexts, List.getElem?_map, hat]
        rfl
      refine ⟨rfl, ⟨s, hs, rfl⟩, ?_, hgiven, ?_, ?_⟩
      · refine ⟨u.requests ++ [.construct s.factory params], ?_, ?_⟩
        · rw [List.take_add_one, hs, ContextSpec.contexts, ← List.map_take]
          exact List.rel_append hb.requests (.cons ⟨params, hp, rfl⟩ .nil)
        · rw [Trace.requests_append, List.append_assoc]
          cases hl with
          | nothing => rfl
          | handed => rfl
      · intro hnil
        cases hl with
        | nothing => rfl
        | handed _ hne _ => exact absurd hnil hne
      · intro hne
        cases hl with
        | nothing hnil => exact absurd hnil hne
        | @handed a _ _ ha => exact ⟨a, rfl, ha.salvages hne⟩
  · exact absurd hd hno

/-- A hotel without its desk: the factory of the desk fails, and the hotel is left. -/
theorem breaksOff_of_falters_sample :
    let f := Fault.ofKind "RuntimeError" "no desk"
    let built : List Instance := [⟨.object "Hotel" 1, [Script.behaviourClass]⟩]
    let w : Surroundings := ⟨fun _ => none, fun _ => none, fun _ => false, fun factory =>
      if factory.identity = "Desk" then .error f
      else .ok ⟨.object "Hotel" 1, [Script.behaviourClass]⟩⟩
    let t := w.traceOf (compose Sample.hotel)
    (Sample.hotel.Distinct ∧ built.length < Sample.hotel.contexts.length ∧
      (∀ s ∈ Sample.hotel.contexts.take (built.length + 1), s.Named) ∧
      Composition.escapes f = false ∧ t.Falters built f) ∧
    ∃ b, w.resultOf (compose Sample.hotel) = .error b ∧ Sample.hotel.BreaksOff t built f b ∧
      ∃ a, b.salvaged = some a ∧ a.aliases = ["main"] := by
  intro f built w t
  have hk : built.length < Sample.hotel.contexts.length := by decide +kernel
  have hn : ∀ s ∈ Sample.hotel.contexts.take (built.length + 1), s.Named := by
    intro s hs
    exact Sample.named_hotel s (List.mem_of_mem_take hs)
  have ht : t.Falters built f := by
    have hgiven : t.constructions.map (·.2) = built.map .ok ++ [.error f] := by
      unfold t Surroundings.traceOf
      rw [Sample.compose_hotel]
      rfl
    rw [Trace.Falters, hgiven]
    exact List.take_prefix _ _
  refine ⟨⟨Sample.distinct_hotel, hk, hn, rfl, ht⟩, ?_⟩
  obtain ⟨b, hb, _, hbreaks⟩ :=
    breaksOff_of_falters (w.runs_traceOf _) Sample.distinct_hotel hk hn rfl ht
  obtain ⟨a, ha, hsalvages⟩ := hbreaks.salvaged (List.cons_ne_nil _ _)
  refine ⟨b, hb, hbreaks, a, ha, hsalvages.mirrors.aliases.trans ?_⟩
  decide +kernel

end Rehearsal
