import Rehearsal.Proofs.Bootstrap.Owners
import Rehearsal.Proofs.Bootstrap.Yield

/-! Which members of a class discovery looks at. They are those that attribute lookup finds: under each name
the member of the first class that has one, when the class is searched before those that it extends. The names
come in the order in which they appear from the most basic class on, so that what overrides a member takes its
place, and takes away its definitions where it has no marks of its own. -/

namespace Rehearsal
set_option autoImplicit false

namespace Layer

/-- What a layer has under a name. Of several members of one name the last was put in the place of the
others. -/
def value? (layer : Layer) (name : String) : Option Member := layer.reverse.find? (·.name == name)

theorem value?_concat (layer : Layer) (m : Member) (name : String) :
    value? (layer ++ [m]) name = if m.name = name then some m else layer.value? name := by
  rw [value?, List.reverse_append, List.reverse_singleton, List.singleton_append, List.find?_cons]
  by_cases h : m.name = name
  · rw [if_pos h, beq_iff_eq.2 h]
  · rw [if_neg h, beq_eq_false_iff_ne.2 h]
    rfl

theorem any_name_iff (members : Layer) (name : String) :
    members.any (·.name == name) = true ↔ name ∈ members.map (·.name) := by
  simp only [List.any_eq_true, beq_iff_eq, List.mem_map]

theorem names_put (members : Layer) (m : Member) :
    (members.put m).map (·.name) = if m.name ∈ members.map (·.name) then members.map (·.name)
      else members.map (·.name) ++ [m.name] := by
  rw [put]
  by_cases h : m.name ∈ members.map (·.name)
  · rw [if_pos h, if_pos ((any_name_iff _ _).2 h), List.map_map]
    apply List.map_congr_left
    intro old _
    dsimp only [Function.comp_apply]
    split
    · rename_i hold
      exact (eq_of_beq hold).symm
    · rfl
  · rw [if_neg h, if_neg (mt (any_name_iff _ _).1 h), List.map_append, List.map_singleton]

/-- What is put among members is the one of its name from then on; the others stay. -/
theorem mem_put (members : Layer) (m x : Member) :
    x ∈ members.put m ↔ if m.name = x.name then m = x else x ∈ members := by
  rw [put]
  by_cases h : m.name ∈ members.map (·.name)
  · rw [if_pos ((any_name_iff _ _).2 h), List.mem_map]
    constructor
    · rintro ⟨old, hold, rfl⟩
      by_cases hname : old.name = m.name
      · simp [hname]
      · simp [hname, Ne.symm hname, hold]
    · intro hx
      split at hx
      · subst hx
        obtain ⟨old, hold, hname⟩ := List.mem_map.1 h
        exact ⟨old, hold, if_pos (beq_iff_eq.2 hname)⟩
      · rename_i hname
        exact ⟨x, hx, if_neg fun hbeq => hname (eq_of_beq hbeq).symm⟩
  · rw [if_neg (mt (any_name_iff _ _).1 h), List.mem_append, List.mem_singleton]
    by_cases hname : m.name = x.name
    · rw [if_pos hname]
      constructor
      · rintro (hx | rfl)
        · exact absurd (hname ▸ List.mem_map_of_mem hx) h
        · rfl
      · exact fun hx => .inr hx.symm
    · rw [if_neg hname]
      constructor
      · rintro (hx | rfl)
        · exact hx
        · exact absurd rfl hname
      · exact .inl

theorem eraseDups_concat (names : List String) (name : String) :
    (names ++ [name]).eraseDups =
      if name ∈ names then names.eraseDups else names.eraseDups ++ [name] := by
  rw [List.eraseDups_append]
  by_cases h : name ∈ names <;> simp [List.removeAll, h, List.eraseDups_cons]

/-- Members put one after the other, by induction from the last: every name keeps the place where it first
appeared. -/
theorem names_merge (all : Layer) : (merge [] all).map (·.name) = (all.map (·.name)).eraseDups := by
  induction all using List.reverseRecOn with
  | nil => simp [merge]
  | append_singleton all m ih =>
    rw [merge, List.foldl_append, List.foldl_cons, List.foldl_nil, names_put, ← merge, ih,
      List.map_append, List.map_singleton, eraseDups_concat]
    simp only [List.mem_eraseDups]

theorem mem_merge (all : Layer) (x : Member) : x ∈ merge [] all ↔ all.value? x.name = some x := by
  induction all using List.reverseRecOn with
  | nil => simp [merge, value?]
  | append_singleton all m ih =>
    rw [merge, List.foldl_append, List.foldl_cons, List.foldl_nil, mem_put, ← merge, ih, value?_concat]
    split <;> simp

end Layer

namespace ContextClass
variable {c : ContextClass} {owner name : String} {m : Member} {items : List Item}

/-- What attribute lookup finds under a name: the class is searched before those that it extends, and the
first that has a member of the name decides. -/
def value? (c : ContextClass) (name : String) : Option Member :=
  c.layers.reverse.findSome? (·.value? name)

/-- The names of members, each where it first appears from the most basic class on. -/
def names (c : ContextClass) : List String :=
  (c.layers.flatMap fun layer => layer.map (·.name)).eraseDups

/-- What discovery makes of the member of a name. -/
def itemsUnder (c : ContextClass) (owner name : String) : Except Fault (List Item) :=
  match c.value? name with
  | some m => Discovery.ofMember c owner m
  | none => .ok []

theorem members_eq (c : ContextClass) : c.members = Layer.merge [] c.layers.flatten :=
  List.foldl_flatten.symm

theorem value?_eq (c : ContextClass) (name : String) :
    c.value? name = Layer.value? c.layers.flatten name := by
  rw [Layer.value?, List.reverse_flatten, List.find?_flatten, ← List.map_reverse, List.findSome?_map]
  rfl

theorem names_members (c : ContextClass) : c.members.map (·.name) = c.names := by
  rw [members_eq, Layer.names_merge, names, List.map_flatten, List.flatMap]

theorem mem_members_iff : m ∈ c.members ↔ c.value? m.name = some m := by
  rw [members_eq, Layer.mem_merge, value?_eq]

theorem nodup_names (c : ContextClass) : c.names.Nodup := by
  rw [names]
  generalize (c.layers.flatMap fun layer => layer.map (·.name)) = all
  induction all using List.reverseRecOn with
  | nil => simp
  | append_singleton all name ih =>
    rw [Layer.eraseDups_concat]
    split
    · exact ih
    · rename_i h
      rw [List.nodup_append]
      refine ⟨ih, List.pairwise_singleton _ _, ?_⟩
      rintro a ha b hb rfl
      obtain rfl := List.mem_singleton.1 hb
      exact h (List.mem_eraseDups.1 ha)

theorem value?_name (h : c.value? name = some m) : m.name = name := by
  rw [value?_eq] at h
  have hname := List.find?_some h
  exact eq_of_beq hname

theorem mem_names_iff : name ∈ c.names ↔ ∃ m, c.value? name = some m := by
  rw [← names_members, List.mem_map]
  constructor
  · rintro ⟨m, hm, rfl⟩
    exact ⟨m, mem_members_iff.1 hm⟩
  · rintro ⟨m, hm⟩
    obtain rfl := value?_name hm
    exact ⟨m, mem_members_iff.2 hm, rfl⟩

/-- Discovery goes through the names of a class, and under each takes what attribute lookup finds. -/
theorem ofClass_eq (c : ContextClass) (owner : String) :
    Discovery.ofClass c owner = do return (← c.names.mapM (c.itemsUnder owner)).flatten := by
  have hsame : c.members.mapM (fun m => c.itemsUnder owner m.name) =
      c.members.mapM (Discovery.ofMember c owner) := by
    apply mapM_congr
    intro m hm
    rw [itemsUnder, mem_members_iff.1 hm]
  rw [Discovery.ofClass, ← names_members, List.mapM_map, ← hsame]
  rfl

/-- In which class a member is found is told in faults only. -/
theorem ofMember_ok_of_ofMember {c' : ContextClass} (h : Discovery.ofMember c owner m = .ok items) :
    Discovery.ofMember c' owner m = .ok items := by
  have hstep : ∀ {path path' mark i}, Discovery.memberStep path owner m mark = .ok i →
      Discovery.memberStep path' owner m mark = .ok i := by
    intro path path' mark i hi
    rw [Discovery.memberStep] at hi ⊢
    split at hi
    · rwa [if_pos ‹_›]
    · cases hi
  have hhook : ∀ {path path' mark i}, Discovery.memberHook path owner m mark = .ok i →
      Discovery.memberHook path' owner m mark = .ok i := by
    intro path path' mark i hi
    rw [Discovery.memberHook] at hi ⊢
    split at hi <;> split at hi
    · rwa [if_pos ‹_›, if_pos ‹_›]
    · cases hi
    · rwa [if_neg ‹_›, if_pos ‹_›]
    · cases hi
  obtain ⟨steps, hsteps, h⟩ := except_bind_eq_ok_iff.1 h
  obtain ⟨hooks, hhooks, h⟩ := except_bind_eq_ok_iff.1 h
  refine except_bind_eq_ok_iff.2 ⟨steps, ?_, except_bind_eq_ok_iff.2 ⟨hooks, ?_, h⟩⟩
  · exact mapM_eq_ok_iff.2 ((mapM_eq_ok_iff.1 hsteps).imp fun _ _ => hstep)
  · exact mapM_eq_ok_iff.2 ((mapM_eq_ok_iff.1 hhooks).imp fun _ _ => hhook)

theorem yields_of_itemsUnder (hm : c.value? name = some m) (h : c.itemsUnder owner name = .ok items) :
    m.marks.Yields (.member (c.qualname ++ "." ++ m.name) owner m) items := by
  rw [itemsUnder, hm] at h
  dsimp only at h
  rw [Discovery.ofMember_eq] at h
  exact Marks.yields_of_findings h

/-- An item runs what it may: steps, and hooks that run on an instance, run plain functions; all other hooks
run what is reached without an instance. -/
inductive Runs (m : Member) : Item → Prop
  | step {d : StepDefinition} : m.isMethod = true → d.callable = m.inner → Runs m (.step d)
  | bound {h : Hook} : h.phase.instanceBound = true → m.isMethod = true → h.callable = m.inner →
      Runs m (.hook h)
  | free {h : Hook} : h.phase.instanceBound = false → m.isStatic = true → h.callable = m.reached →
      Runs m (.hook h)

theorem runs_of_yields {path : String} {i : Item} (h : m.marks.Yields (.member path owner m) items)
    (hi : i ∈ items) : i.owner = some owner ∧ Runs m i := by
  obtain ⟨steps, hooks, hsteps, hhooks, rfl⟩ := h
  rcases List.mem_append.1 hi with hi | hi
  · obtain ⟨d, hd, rfl⟩ := List.mem_map.1 hi
    obtain ⟨mark, _, hmade⟩ := exists_left_of_forall₂ hsteps hd
    exact ⟨hmade.owner, .step hmade.taken hmade.callable⟩
  · obtain ⟨k, hk, rfl⟩ := List.mem_map.1 hi
    obtain ⟨mark, _, hmade⟩ := exists_left_of_forall₂ hhooks hk
    have htaken := hmade.taken
    have hcallable := hmade.callable
    rw [Site.takesHooks, ← hmade.phase] at htaken
    rw [Site.hookCallable, ← hmade.phase] at hcallable
    refine ⟨hmade.owner, ?_⟩
    cases hbound : k.phase.instanceBound with
    | true =>
      rw [if_pos hbound] at htaken hcallable
      exact .bound hbound htaken hcallable
    | false =>
      rw [if_neg (Bool.eq_false_iff.1 hbound)] at htaken hcallable
      exact .free hbound htaken hcallable

/-- Discovery follows attribute lookup. -/
structure FollowsLookup (c : ContextClass) (owner : String) : Prop where
  /-- The names are gone through in order, and under each counts what lookup finds. -/
  considered : Discovery.ofClass c owner = do return (← c.names.mapM (c.itemsUnder owner)).flatten
  once : c.names.Nodup
  found : ∀ name, name ∈ c.names ↔ ∃ m, c.value? name = some m
  /-- One item is made of each mark on what is found, and nothing where it has none. -/
  made : ∀ name m items, c.value? name = some m → c.itemsUnder owner name = .ok items →
    m.marks.Yields (.member (c.qualname ++ "." ++ m.name) owner m) items
  removed : ∀ name m, c.value? name = some m → m.marks = .none → c.itemsUnder owner name = .ok []
  /-- What a class has itself takes the inherited place, and else comes last. What it does not have itself is
  inherited with all its definitions. -/
  inherited : ∀ (base : ContextClass) own, c.layers = base.layers ++ [own] →
    base.names <+: c.names ∧
    (∀ name m, own.value? name = some m → c.itemsUnder owner name = Discovery.ofMember c owner m) ∧
    ∀ name, own.value? name = none → c.value? name = base.value? name ∧
      ∀ items, c.itemsUnder owner name = .ok items ↔ base.itemsUnder owner name = .ok items
  runs : ∀ items, Discovery.ofClass c owner = .ok items → ∀ i ∈ items,
    i.owner = some owner ∧ ∃ m, c.value? m.name = some m ∧ Runs m i

/-- Whatever a class extends, discovery considers each name once, with what attribute lookup finds under it,
and in the order in which names appear from the most basic class on. -/
theorem follows_lookup (c : ContextClass) (owner : String) : c.FollowsLookup owner := by
  refine ⟨c.ofClass_eq owner, c.nodup_names, fun name => mem_names_iff, fun name m items hm h =>
    yields_of_itemsUnder hm h, ?_, ?_, ?_⟩
  · intro name m hm hnone
    rw [itemsUnder, hm]
    dsimp only
    rw [Discovery.ofMember, hnone]
    rfl
  · intro base own hlayers
    have hvalue : ∀ name, c.value? name = (own.value? name).or (base.value? name) := by
      intro name
      rw [value?, hlayers, List.reverse_append, List.reverse_singleton, List.singleton_append,
        List.findSome?_cons]
      cases own.value? name <;> rfl
    refine ⟨?_, ?_, ?_⟩
    · rw [names.eq_def c, hlayers, List.flatMap_append, List.eraseDups_append]
      exact List.prefix_append base.names _
    · intro name m hown
      rw [itemsUnder, hvalue, hown]
      rfl
    · intro name hown
      have hsame : c.value? name = base.value? name := by rw [hvalue, hown, Option.none_or]
      refine ⟨hsame, fun items => ?_⟩
      rw [itemsUnder, itemsUnder, hsame]
      cases base.value? name with
      | none => exact Iff.rfl
      | some m => exact ⟨ofMember_ok_of_ofMember, ofMember_ok_of_ofMember⟩
  · intro items h i hi
    rw [ofClass_eq] at h
    obtain ⟨parts, hparts, h⟩ := except_bind_eq_ok_iff.1 h
    cases h
    obtain ⟨part, hpart, hi⟩ := List.mem_flatten.1 hi
    obtain ⟨name, hname, hitems⟩ := exists_left_of_forall₂ (mapM_eq_ok_iff.1 hparts) hpart
    obtain ⟨m, hm⟩ := mem_names_iff.1 hname
    obtain ⟨howner, hruns⟩ := runs_of_yields (yields_of_itemsUnder hm hitems) hi
    exact ⟨howner, m, (value?_name hm).symm ▸ hm, hruns⟩

/-- An override comes where the overridden was, and whatever the overridden had is gone. -/
example : let c : ContextClass := ⟨0, "Annex", "Annex",
      [[Sample.method 1 "unlock" .static ⟨[], [⟨.beforeFeature, none⟩]⟩, Sample.method 2 "free" .plain .none],
        [Sample.method 3 "tidy" .plain .none, Sample.method 4 "unlock" .static .none]]⟩
    c.names = ["unlock", "free", "tidy"] ∧ (c.value? "unlock").map (·.marks.isEmpty) = some true := by
  decide

end ContextClass
end Rehearsal
