import Rehearsal.Proofs.Contexts.Tree

/-! The walk through a tree of contexts, turn by turn. What a turn leaves on the stack is what is still to be
visited; so the turns come to an end, and what was visited by then is the tree in preorder. Everything that
occurs in the tree is in it once, with the context under which it is declared: what is above comes before
what is below, and what is declared first comes, with all under it, before what is declared later. -/

namespace Rehearsal.ContextSpec
set_option autoImplicit false

namespace Pending

/-- Turns that lead from one stack to another, with what is visited in them. -/
inductive Turns : Pending → List (ContextSpec × Option ContextSpec) → Pending → Prop
  | nil {p : Pending} : Turns p [] p
  | cons {p q r : Pending} {entry : ContextSpec × Option ContextSpec}
      {entries : List (ContextSpec × Option ContextSpec)} :
      p.next? = some (entry, q) → Turns q entries r → Turns p (entry :: entries) r

variable {p q : Pending} {entries : List (ContextSpec × Option ContextSpec)}

/-- What was visited and what is still to be visited make up what was to be visited at the start. -/
theorem Turns.preorder_eq (h : Turns p entries q) : p.preorder = entries ++ q.preorder := by
  induction h with
  | nil => rfl
  | cons hnext _ ih => rw [preorder_of_next? hnext, ih, List.cons_append]

theorem Turns.weight_eq (h : Turns p entries q) : p.weight = entries.length + q.weight := by
  induction h with
  | nil => exact (Nat.zero_add _).symm
  | cons hnext _ ih =>
    rw [weight_of_next? hnext, ih, List.length_cons]
    omega

theorem turns_walkFrom (p : Pending) : Turns p (walkFrom p) [] := by
  induction p using walkFrom.induct with
  | case1 p h =>
    obtain rfl := next?_eq_none_iff.1 h
    rw [walkFrom_nil]
    exact .nil
  | case2 p entry q h ih =>
    rw [walkFrom_of_next? h]
    exact .cons h ih

theorem preorder_eq_nil_iff : p.preorder = [] ↔ p = [] := by
  cases p with
  | nil => exact iff_of_true rfl rfl
  | cons top below =>
    refine iff_of_false ?_ (List.cons_ne_nil _ _)
    rw [preorder, List.flatMap_cons, preorder_eq, List.cons_append]
    exact List.cons_ne_nil _ _

end Pending

/-- The turns of a walk come to an end. -/
structure Terminates (root : ContextSpec) : Prop where
  /-- They lead to an empty stack, and then everything in the walk was visited. -/
  ends : Pending.Turns [(root, none)] root.walk []
  /-- After any of them the tree in preorder is what was visited and then what is on the stack. -/
  along : ∀ entries q, Pending.Turns [(root, none)] entries q →
    root.preorder none = entries ++ q.preorder
  /-- There are as many as there are contexts in the tree, and each leaves one context fewer. -/
  counted : ∀ entries q, Pending.Turns [(root, none)] entries q →
    entries.length + q.weight = root.count
  /-- There is no further turn when everything was visited, and not before. -/
  stops : ∀ entries q, Pending.Turns [(root, none)] entries q →
    (q.next? = none ↔ entries = root.walk)

theorem terminates (root : ContextSpec) : root.Terminates := by
  have halong : ∀ entries q, Pending.Turns [(root, none)] entries q →
      root.preorder none = entries ++ q.preorder := by
    intro entries q h
    rw [← h.preorder_eq, Pending.preorder, List.flatMap_singleton]
  refine ⟨Pending.turns_walkFrom _, halong, ?_, ?_⟩
  · intro entries q h
    rw [← h.weight_eq]
    exact Nat.add_zero _
  · intro entries q h
    rw [Pending.next?_eq_none_iff, ← Pending.preorder_eq_nil_iff, walk_eq_preorder, halong entries q h]
    exact List.self_eq_append_right.symm

/-- An induction that goes from the contexts under one to that one. -/
theorem induct {P : ContextSpec → Prop} (h : ∀ s, (∀ c ∈ s.subcontexts, P c) → P s) : ∀ s, P s
  | ⟨_, _, _, _, subcontexts⟩ => h _ fun c (_ : c ∈ subcontexts) => induct h c
termination_by s => sizeOf s
decreasing_by
  have := List.sizeOf_lt_of_mem ‹_›
  simp only [mk.sizeOf_spec]
  omega

/-- A context occurs in a tree at the end of a path, which says for every step down the place, among those
that are declared beside each other, of the one that is taken. It occurs under the context before the last
step; the root occurs under what is above the tree. -/
inductive Occurs (root : ContextSpec) (above : Option ContextSpec) :
    List Nat → ContextSpec → Option ContextSpec → Prop
  | root : Occurs root above [] root above
  | under {path : List Nat} {s child : ContextSpec} {parent : Option ContextSpec} {i : Nat} :
      Occurs root above path s parent → s.subcontexts[i]? = some child →
      Occurs root above (path ++ [i]) child (some s)

/-- Only the root occurs where no step is taken. -/
theorem Occurs.eq_root {root s : ContextSpec} {above parent : Option ContextSpec}
    (h : root.Occurs above [] s parent) : s = root ∧ parent = above := by
  generalize hwhole : [] = whole at h
  cases h with
  | root => exact ⟨rfl, rfl⟩
  | under => exact absurd hwhole.symm (List.append_ne_nil_of_right_ne_nil _ (List.cons_ne_nil _ _))

/-- The first step down leads to a child of the root, and the others through the tree of that child. -/
theorem occurs_cons_iff {root s : ContextSpec} {above parent : Option ContextSpec} {i : Nat}
    {path : List Nat} : root.Occurs above (i :: path) s parent ↔
      ∃ child, root.subcontexts[i]? = some child ∧ child.Occurs (some root) path s parent := by
  constructor
  · generalize hwhole : i :: path = whole
    intro h
    induction h generalizing path with
    | root => cases hwhole
    | @under init s child _ j hs hat ih =>
      rcases init with _ | ⟨k, init⟩
      · cases hwhole
        obtain ⟨rfl, rfl⟩ := hs.eq_root
        exact ⟨child, hat, .root⟩
      · cases hwhole
        obtain ⟨c, hc, hocc⟩ := ih rfl
        exact ⟨c, hc, hocc.under hat⟩
  · rintro ⟨child, hchild, h⟩
    induction h with
    | root => exact .under .root hchild
    | under _ hat ih => exact ih.under hat

mutual

/-- The paths of a tree in preorder. -/
def paths : ContextSpec → List (List Nat)
  | ⟨_, _, _, _, subcontexts⟩ => [] :: pathsFrom 0 subcontexts

/-- The paths through contexts beside each other, the first of which has a given place. -/
def pathsFrom (i : Nat) : List ContextSpec → List (List Nat)
  | [] => []
  | s :: ss => s.paths.map (i :: ·) ++ pathsFrom (i + 1) ss

end

theorem pathsFrom_eq_flatMap (i : Nat) (ss : List ContextSpec) :
    pathsFrom i ss = (ss.zipIdx i).flatMap fun c => c.1.paths.map (c.2 :: ·) := by
  induction ss generalizing i with
  | nil => rw [pathsFrom, List.zipIdx_nil, List.flatMap_nil]
  | cons s ss ih => rw [pathsFrom, ih, List.zipIdx_cons, List.flatMap_cons]

theorem paths_eq (s : ContextSpec) :
    s.paths = [] :: s.subcontexts.zipIdx.flatMap fun c => c.1.paths.map (c.2 :: ·) := by
  rcases s with ⟨_, _, _, _, _⟩
  rw [paths, pathsFrom_eq_flatMap]

/-- The entries of the preorder are what occurs at the paths. -/
theorem occurs_paths (s : ContextSpec) (above : Option ContextSpec) :
    List.Forall₂ (fun path e => s.Occurs above path e.1 e.2) s.paths (s.preorder above) := by
  induction s using induct generalizing above with
  | h s ih =>
    have hplaces : List.Forall₂ (fun c child => s.subcontexts[c.2]? = some child ∧ c.1 = child)
        s.subcontexts.zipIdx s.subcontexts := by
      rw [← s.subcontexts.zipIdx_map_fst 0, List.forall₂_map_right_iff, List.zipIdx_map_fst,
        List.forall₂_same]
      intro c hc
      exact ⟨List.mem_zipIdx_iff_getElem?.1 hc, rfl⟩
    rw [paths_eq, preorder_eq, preorderAll_eq_flatMap]
    refine .cons .root (List.rel_flatMap hplaces ?_)
    rintro ⟨child, i⟩ _ ⟨hat, rfl⟩
    rw [List.forall₂_map_left_iff]
    refine (ih child (List.mem_of_getElem? hat) _).imp fun path e h => ?_
    exact occurs_cons_iff.2 ⟨child, hat, h⟩

/-- There is no other path at which something occurs. -/
theorem Occurs.mem_paths {root s : ContextSpec} {above parent : Option ContextSpec} {path : List Nat}
    (h : root.Occurs above path s parent) : path ∈ root.paths := by
  induction path generalizing root above with
  | nil =>
    rw [paths_eq]
    exact List.mem_cons_self
  | cons i path ih =>
    obtain ⟨child, hchild, hocc⟩ := occurs_cons_iff.1 h
    rw [paths_eq]
    apply List.mem_cons_of_mem
    apply List.mem_flatMap.2
    refine ⟨(child, i), List.mem_zipIdx_iff_getElem?.2 hchild, ?_⟩
    exact List.mem_map_of_mem (ih hocc)

/-- The paths ascend: each is followed by those that it begins, and of two that part the one through the
earlier child comes first. -/
theorem pairwise_paths (s : ContextSpec) : s.paths.Pairwise (· < ·) := by
  induction s using induct with
  | h s ih =>
    rw [paths_eq, List.pairwise_cons, List.pairwise_flatMap]
    refine ⟨?_, ?_, ?_⟩
    · intro path hpath
      obtain ⟨c, _, hc⟩ := List.mem_flatMap.1 hpath
      obtain ⟨path, _, rfl⟩ := List.mem_map.1 hc
      exact List.nil_lt_cons _ _
    · rintro ⟨child, i⟩ hc
      rw [List.pairwise_map]
      refine (ih child (List.mem_of_getElem? (List.mem_zipIdx_iff_getElem?.1 hc))).imp fun hlt => ?_
      exact List.cons_lt_cons_iff.2 (.inr ⟨rfl, hlt⟩)
    · refine (pairwise_zipIdx s.subcontexts).imp fun hlt x hx y hy => ?_
      obtain ⟨x, _, rfl⟩ := List.mem_map.1 hx
      obtain ⟨y, _, rfl⟩ := List.mem_map.1 hy
      exact List.cons_lt_cons_iff.2 (.inl hlt)

example (f : Factory) :
    let leaf name : ContextSpec := ⟨f, name, .dict [], [], []⟩
    paths { leaf "main" with subcontexts := [{ leaf "desk" with subcontexts := [leaf "safe"] },
      leaf "bar"] } = [[], [0], [0, 0], [1]] := rfl

/-- The smaller of two paths has the earlier place. -/
theorem lt_of_paths {s : ContextSpec} {i j : Nat} {x y : List Nat} (hx : s.paths[i]? = some x)
    (hy : s.paths[j]? = some y) (hlt : x < y) : i < j := by
  obtain ⟨hi, rfl⟩ := List.getElem?_eq_some_iff.1 hx
  obtain ⟨hj, rfl⟩ := List.getElem?_eq_some_iff.1 hy
  rcases Nat.lt_trichotomy i j with hij | rfl | hji
  · exact hij
  · exact absurd hlt (List.lt_irrefl _)
  · exact absurd (List.pairwise_iff_getElem.1 s.pairwise_paths j i hj hi hji) (List.lt_asymm hlt)

/-- The entries are what occurs in a tree, at these paths and in preorder. -/
structure Enumerates (root : ContextSpec) (paths : List (List Nat))
    (entries : List (ContextSpec × Option ContextSpec)) : Prop where
  /-- Each entry is what occurs at its path, with the context under which it occurs. -/
  occurs : List.Forall₂ (fun path e => root.Occurs none path e.1 e.2) paths entries
  complete : ∀ path s parent, root.Occurs none path s parent → path ∈ paths
  once : paths.Nodup
  /-- What is above comes before all that is below. -/
  above : ∀ (i j : Nat) (path below : List Nat), below ≠ [] → paths[i]? = some path →
    paths[j]? = some (path ++ below) → i < j
  /-- An earlier child comes, with all that is below, before a later one and what is below that. -/
  beside : ∀ (i j : Nat) (path : List Nat) (m n : Nat) (below below' : List Nat), m < n →
    paths[i]? = some (path ++ m :: below) → paths[j]? = some (path ++ n :: below') → i < j

theorem enumerates_preorder (root : ContextSpec) : root.Enumerates root.paths (root.preorder none) := by
  refine ⟨root.occurs_paths none, fun _ _ _ h => h.mem_paths, ?_, ?_, ?_⟩
  · refine root.pairwise_paths.imp fun hlt heq => ?_
    exact List.lt_irrefl _ (heq ▸ hlt)
  · intro i j path below hne hi hj
    obtain ⟨m, below, rfl⟩ := List.exists_cons_of_ne_nil hne
    refine lt_of_paths hi hj ?_
    calc path = path ++ [] := (List.append_nil _).symm
      _ < path ++ m :: below := List.append_left_lt (List.nil_lt_cons _ _)
  · intro i j path m n below below' hmn hi hj
    exact lt_of_paths hi hj (List.append_left_lt (List.cons_lt_cons_iff.2 (.inl hmn)))

/-- A walk comes to an end for every tree, and it is the tree in preorder, each context with its parent. -/
theorem walks_in_preorder (root : ContextSpec) :
    root.Terminates ∧ root.walk = root.preorder none ∧ root.walk.length = root.count ∧
      root.Enumerates root.paths root.walk := by
  have hterminates := root.terminates
  refine ⟨hterminates, root.walk_eq_preorder, hterminates.counted _ _ hterminates.ends, ?_⟩
  rw [walk_eq_preorder]
  exact root.enumerates_preorder

end Rehearsal.ContextSpec
