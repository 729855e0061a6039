import Rehearsal.Proofs.Bootstrap.Making
import Rehearsal.Proofs.Scenario.Ownership
import Rehearsal.Proofs.Surroundings
import Rehearsal.Proofs.Tag

/-! Who owns what a registry was built from. What is made of the marks of a context belongs to its alias,
and what is made of those of a module to no one. So once contexts of the same tree are composed everything
has its place among them: no definition is without a context, and no hook is left out for want of one. -/

namespace Rehearsal
set_option autoImplicit false

def Item.owner : Item → Option String
  | step d => d.owner
  | hook h => h.owner
  | other _ => none

/-- Does an owner, if there is one, have an alias of a tree? -/
def ContextSpec.Knows (root : ContextSpec) (owner : Option String) : Prop :=
  ∀ aliasName, owner = some aliasName → aliasName ∈ root.contexts.map (·.aliasName)

theorem Finding.owner_of_item {x : Finding} {i : Item} (h : x.item = .ok i) : i.owner = x.site.owner := by
  have hx := x.becomes
  rw [h] at hx
  generalize x.unreadable = unreadable at hx
  cases hx with
  | step _ ho => exact ho
  | hook _ ho => exact ho

namespace ContextSpec
variable {root : ContextSpec} {x : Finding}

theorem owner_of_mem_ownFindings {s : ContextSpec} (h : x ∈ s.ownFindings) :
    x.site.owner = some s.aliasName := by
  rw [ownFindings] at h
  split at h
  · obtain ⟨m, _, hx⟩ := List.mem_flatMap.1 h
    rcases List.mem_append.1 hx with hx | hx <;> obtain ⟨_, _, rfl⟩ := List.mem_map.1 hx <;> rfl
  · cases h

theorem knows_of_mem_findings (h : x ∈ root.findings) : root.Knows x.site.owner := by
  obtain ⟨s, hs, hx⟩ := List.mem_flatMap.1 h
  intro aliasName ho
  rw [owner_of_mem_ownFindings hx] at ho
  cases ho
  exact List.mem_map_of_mem hs

theorem knows_of_mem_modules {modules : List StepModule} (h : x ∈ StepModule.findings modules) :
    root.Knows x.site.owner := by
  obtain ⟨e, _, hx⟩ := List.mem_flatMap.1 h
  rcases List.mem_append.1 hx with hx | hx <;> obtain ⟨_, _, rfl⟩ := List.mem_map.1 hx <;> nofun

end ContextSpec

namespace Registry

theorem mem_owners {r : Registry} {aliasName : String} : aliasName ∈ r.owners ↔
    (∃ d ∈ r.definitions, d.owner = some aliasName) ∨ ∃ h ∈ r.registered, h.owner = some aliasName := by
  rw [owners, mem_sortedSet, List.mem_append, List.mem_filterMap, List.mem_filterMap]

/-- On contexts that were built for a tree nothing of a registry is missing. Each definition is paired with
the context at the place of its owner, and all the hooks that are chosen have theirs. -/
structure Complete (r : Registry) (specs : List ContextSpec) (built : List Instance)
    (table : DispatchTable) : Prop where
  definitions : table.definitions = r.definitions
  targets : List.Forall₂ (fun d i => ∃ j, ContextSpec.OwnerAt specs d.owner j ∧ built[j]? = some i)
    r.definitions table.targets
  bound : ∀ hook ∈ r.registered, table.arena.binds hook.owner = true
  kept : ∀ phase tags hooks, r.lookup phase tags = .ok hooks →
    hooks.filter (fun hook => table.arena.binds hook.owner) = hooks

end Registry

/-- What a registry was built from belongs to contexts of the tree, or to no one. -/
theorem knows_owners {root : ContextSpec} {modules : List StepModule} {r : Registry}
    (h : buildRegistry root modules = .ok r) :
    (∀ d ∈ r.definitions, root.Knows d.owner) ∧ ∀ hook ∈ r.registered, root.Knows hook.owner := by
  obtain ⟨items, hitems, hdefinitions, hregistered, _⟩ := entries_of_buildRegistry h
  have hknown : ∀ i ∈ items, root.Knows i.owner := by
    intro i hi
    obtain ⟨x, hx, hitem⟩ := exists_left_of_forall₂ (mapM_eq_ok_iff.1 hitems) hi
    rw [Finding.owner_of_item hitem]
    rcases List.mem_append.1 hx with hx | hx
    · exact ContextSpec.knows_of_mem_findings hx
    · exact ContextSpec.knows_of_mem_modules hx
  rw [hdefinitions, hregistered]
  constructor
  · intro d hd
    obtain ⟨i, hi, hi'⟩ := List.mem_filterMap.1 hd
    cases i <;> cases hi'
    exact hknown _ hi
  · intro hook hm
    obtain ⟨i, hi, hi'⟩ := List.mem_filterMap.1 hm
    cases i <;> cases hi'
    exact hknown _ hi

theorem ContextSpec.Knows.binds {root : ContextSpec} {owner : Option String} {a : Arena}
    {built : List Instance} (h : root.Knows owner) (ha : a.Holds root.contexts built) :
    a.binds owner = true := by
  cases owner with
  | none => rfl
  | some aliasName =>
    apply Arena.has_iff.2
    rw [ha.aliases]
    exact h aliasName rfl

/-- Every owner in a registry that could be built is an alias of the tree. So whenever the contexts of the
tree are composed, a table is made of the registry and them, and it is complete. -/
theorem complete_of_buildRegistry {root : ContextSpec} {modules : List StepModule} {r : Registry}
    (h : buildRegistry root modules = .ok r) :
    (∀ aliasName ∈ r.owners, aliasName ∈ root.contexts.map (·.aliasName)) ∧
    ∀ (t : Trace) a, (compose root).Runs t (.ok a) → ∃ built table,
      t.constructions = List.zipWith (fun s i => (s.factory, .ok i)) root.contexts built ∧
      a.Holds root.contexts built ∧ DispatchTable.build r a = .ok table ∧ table.arena = a ∧
      r.Complete root.contexts built table := by
  obtain ⟨hdefinitions, hhooks⟩ := knows_owners h
  constructor
  · intro aliasName hm
    rcases Registry.mem_owners.1 hm with ⟨d, hd, ho⟩ | ⟨hook, hm, ho⟩
    · exact hdefinitions d hd aliasName ho
    · exact hhooks hook hm aliasName ho
  · intro t a hrun
    obtain ⟨built, hbuilt, hholds⟩ := holds_of_compose hrun
    have hroot : a.nodes ≠ [] := (composed_compose hrun).rooted a rfl
    have hbinds : ∀ hook ∈ r.registered, a.binds hook.owner = true :=
      fun hook hm => (hhooks hook hm).binds hholds
    cases htable : DispatchTable.build r a with
    | error f =>
      -- A definition whose owner is not there would have to be to blame.
      obtain ⟨d, hd, aliasName, ho, hno, _⟩ := DispatchTable.unowned_of_build hholds hroot htable
      have hbound := (hdefinitions d hd).binds hholds
      rw [hholds.binds_iff, ho, Option.all_some, hno] at hbound
      cases hbound
    | ok table =>
      obtain ⟨harena, hsame, htargets⟩ := DispatchTable.build_eq_ok htable
      refine ⟨built, table, hbuilt, hholds, rfl, harena, hsame, ?_, ?_, ?_⟩
      · rw [← hsame]
        exact htargets.imp fun d i hi => hholds.ownerAt hi
      · rwa [harena]
      · intro phase tags hooks hlookup
        rw [harena, List.filter_eq_self]
        intro hook hm
        have hmem := (Registry.lookup_sublist hlookup).subset hm
        exact hbinds hook (List.mem_filter.1 hmem).1

namespace Sample

/-- A plain method under a name, with what its decorators left on it. -/
def method (id : Nat) (name : String) (wrapping : Wrapping) (marks : Marks) : Member :=
  ⟨name, wrapping, true, callable id name, callable id name, marks, .none⟩

/-- An inn where rooms are free, with a bar that opens before a feature. -/
def inn : ContextSpec :=
  let rooms := method 1 "free" .plain ⟨[⟨.text "a room is free", "given", .int 0, []⟩], []⟩
  let opening := method 2 "unlock" .static ⟨[], [⟨.beforeFeature, some "@bar"⟩]⟩
  ⟨⟨callable 0 "Inn", "Inn", [], some ⟨0, "Inn", "Inn", [[rooms]]⟩⟩, "main", .dict [], [],
    [.leaf ⟨callable 9 "Bar", "Bar", [], some ⟨1, "Bar", "Bar", [[opening]]⟩⟩ "bar"]⟩

/-- A module with a step and a hook that belong to no context. -/
def inventory : StepModule :=
  ⟨"inventory", [⟨"count", true, callable 3 "count",
    ⟨[⟨.text "it is counted", "then", .int 0, []⟩], [⟨.afterScenario, none⟩]⟩⟩]⟩

end Sample

theorem complete_of_buildRegistry_sample : ∃ (r : Registry) (a : Arena) (t : Trace),
    buildRegistry Sample.inn [Sample.inventory] = .ok r ∧ (compose Sample.inn).Runs t (.ok a) ∧
      r.definitions.map (·.owner) = [some "main", none] ∧
      r.registered.map (·.owner) = [some "bar", none] ∧
      ∃ built table, DispatchTable.build r a = .ok table ∧ r.Complete Sample.inn.contexts built table := by
  have hvalid : ContextSpec.validateFrom [] Sample.inn.contexts = .ok Sample.inn.contexts := rfl
  obtain ⟨r, hr, howners⟩ : ∃ r, buildRegistry Sample.inn [Sample.inventory] = .ok r ∧
      (r.definitions.map (·.owner) == [some "main", none] &&
        r.registered.map (·.owner) == [some "bar", none]) = true := by
    refine exists_ok_of_any ?_
    rw [buildRegistry_eq, ContextSpec.validate, ContextSpec.walk_eq_preorder]
    rw [ContextSpec.contexts] at hvalid
    rw [hvalid]
    decide +kernel
  let w := Sample.surroundings (fun _ => none) fun _ => none
  obtain ⟨a, ha⟩ : ∃ a, w.resultOf (compose Sample.inn) = .ok a := by
    apply exists_of_toBool
    rw [compose_eq_composeFrom hvalid]
    decide +kernel
  have hrun := w.runs_traceOf (compose Sample.inn)
  rw [ha] at hrun
  obtain ⟨built, table, _, _, hbuild, _, hcomplete⟩ := (complete_of_buildRegistry hr).2 _ a hrun
  rw [Bool.and_eq_true] at howners
  exact ⟨r, a, _, hr, hrun, eq_of_beq howners.1, eq_of_beq howners.2, built, table, hbuild, hcomplete⟩

end Rehearsal
