import Rehearsal.Proofs.Contexts.Tree
import Rehearsal.Script.Bootstrap

/-! Declared contexts against the tree that is built of them. A configuration looks for repeated aliases along
a stack that takes the last of several contexts first, the tree is walked in preorder; but both go through the
same aliases, and every context keeps in the tree the place that its declaration has. -/

namespace Rehearsal
set_option autoImplicit false
open Script

namespace Config.ContextDecl

mutual

/-- The declarations of a tree in preorder, each with the one under which it stands. -/
def preorder (parent : Option ContextDecl) : ContextDecl → List (ContextDecl × Option ContextDecl)
  | ⟨path, aliasName, params, capabilities, subcontexts⟩ =>
    (⟨path, aliasName, params, capabilities, subcontexts⟩, parent) ::
      preorderAll (some ⟨path, aliasName, params, capabilities, subcontexts⟩) subcontexts

def preorderAll (parent : Option ContextDecl) :
    List ContextDecl → List (ContextDecl × Option ContextDecl)
  | [] => []
  | d :: ds => preorder parent d ++ preorderAll parent ds

end

def declared (d : ContextDecl) : List ContextDecl := (d.preorder none).map (·.1)

/-- An induction that goes from the declarations under one to that one. -/
theorem induct {P : ContextDecl → Prop} (h : ∀ d, (∀ e ∈ d.subcontexts, P e) → P d) : ∀ d, P d
  | ⟨_, _, _, _, subcontexts⟩ => h _ fun e (_ : e ∈ subcontexts) => induct h e
termination_by d => sizeOf d
decreasing_by
  have := List.sizeOf_lt_of_mem ‹_›
  simp only [mk.sizeOf_spec]
  omega

theorem preorder_eq (d : ContextDecl) (parent : Option ContextDecl) :
    d.preorder parent = (d, parent) :: d.subcontexts.flatMap (preorder (some d)) := by
  have hall : ∀ ds parent, preorderAll parent ds = ds.flatMap (preorder parent) := by
    intro ds parent
    induction ds with
    | nil => rw [preorderAll, List.flatMap_nil]
    | cons d ds ih => rw [preorderAll, ih, List.flatMap_cons]
  rcases d with ⟨path, aliasName, params, capabilities, subcontexts⟩
  rw [preorder, hall]

theorem map_fst_preorder (d : ContextDecl) (parent : Option ContextDecl) :
    (d.preorder parent).map (·.1) = d.declared := by
  rw [declared, preorder_eq, preorder_eq, List.map_cons, List.map_cons]

theorem declared_eq (d : ContextDecl) : d.declared = d :: d.subcontexts.flatMap declared := by
  rw [declared, preorder_eq, List.map_cons, List.map_flatMap]
  congr 2
  funext e
  exact e.map_fst_preorder _

def aliases (d : ContextDecl) : List String := d.declared.map (·.aliasName)

theorem aliases_eq (d : ContextDecl) : d.aliases = d.aliasName :: d.subcontexts.flatMap aliases := by
  rw [aliases, declared_eq, List.map_cons, List.map_flatMap]
  rfl

/-- No alias is repeated on a stack where all aliases on it, and those that were met, are distinct. -/
theorem repeatedAlias?_eq_none_iff {met : List String} (hmet : met.Nodup) (pending : List ContextDecl) :
    repeatedAlias? met pending = none ↔ (met ++ pending.flatMap aliases).Nodup := by
  induction met, pending using repeatedAlias?.induct with
  | case1 met =>
    rw [repeatedAlias?, List.flatMap_nil, List.append_nil]
    exact iff_of_true rfl hmet
  | case2 met d rest h =>
    rw [repeatedAlias?, if_pos h, List.flatMap_cons, aliases_eq]
    refine iff_of_false (Option.some_ne_none _) fun hnodup => ?_
    exact (List.nodup_append.1 hnodup).2.2 _ (List.contains_iff_mem.1 h) _ List.mem_cons_self rfl
  | case3 met d rest h ih =>
    simp only [List.unattach_reverse, List.unattach_attach] at ih
    rw [repeatedAlias?, if_neg h, ih (List.nodup_cons.2 ⟨mt List.contains_iff_mem.2 h, hmet⟩)]
    refine List.Perm.nodup_iff ?_
    rw [List.flatMap_append, List.flatMap_cons, aliases_eq]
    have hreverse : (d.subcontexts.reverse.flatMap aliases).Perm (d.subcontexts.flatMap aliases) :=
      (List.reverse_perm _).flatMap_right _
    exact (((hreverse.append_right _).append_left met).cons _).trans List.perm_middle.symm

end Config.ContextDecl

theorem ContextSpec.capabilitiesOf_texts (names : List String) :
    capabilitiesOf (.list (names.map .text)) = .ok names := by
  have hnone : (names.map Value.text).find? (!·.hashable) = none := by
    rw [List.find?_eq_none]
    intro v hv
    obtain ⟨name, _, rfl⟩ := List.mem_map.1 hv
    exact Bool.false_ne_true
  rw [capabilitiesOf, Value.setItems, Value.iterate, except_ok_bind, hnone]
  change Except.ok ((names.map Value.text).map Value.display) = .ok names
  rw [List.map_map]
  simp [Function.comp_def]

namespace Script.Host
variable {h : Host} {d : Config.ContextDecl}

/-- The path of a declaration leads to something that can be called. -/
def Imports (h : Host) (d : Config.ContextDecl) : Prop :=
  ∃ thing, h.importThing d.path = .ok thing ∧ (h.factoryOf thing).callable.isCallable = true

/-- A context is what a declaration says. -/
structure Gives (h : Host) (d : Config.ContextDecl) (s : ContextSpec) : Prop where
  made : h.specOfDecl d = .ok s
  factory : ∃ thing, h.importThing d.path = .ok thing ∧ s.factory = h.factoryOf thing
  aliasName : s.aliasName = d.aliasName
  params : s.params = .dict d.params
  capabilities : ∀ tag, tag ∈ s.capabilities ↔ tag ∈ d.capabilities

theorem specsOfDecls_eq_mapM (ds : List Config.ContextDecl) : h.specsOfDecls ds = ds.mapM h.specOfDecl := by
  induction ds with
  | nil => rw [specsOfDecls, List.mapM_nil]; rfl
  | cons d ds ih => rw [specsOfDecls, ih, List.mapM_cons]

theorem gives_of_specs {specs : List ContextSpec} (halias : d.aliasName ≠ "") (himports : h.Imports d)
    (hspecs : d.subcontexts.mapM h.specOfDecl = .ok specs) :
    ∃ s, h.Gives d s ∧ s.subcontexts = specs := by
  obtain ⟨thing, hthing, hcallable⟩ := himports
  rcases d with ⟨path, aliasName, params, capabilities, subcontexts⟩
  refine ⟨⟨h.factoryOf thing, aliasName, .dict params, capabilities, specs⟩,
    ⟨?_, ⟨thing, hthing, rfl⟩, rfl, rfl, fun _ => Iff.rfl⟩, rfl⟩
  have hname : aliasName.isEmpty = false := by
    rw [← Bool.not_eq_true, String.isEmpty_iff]
    exact halias
  rw [specOfDecl, hthing, except_ok_bind, specsOfDecls_eq_mapM, hspecs]
  dsimp only
  rw [hcallable, if_neg (by decide), except_ok_bind, ContextSpec.make, hname, hcallable,
    ContextSpec.capabilitiesOf_texts]
  rfl

/-- A declaration with its context, and with those above them. -/
def Matches (h : Host) (p : Config.ContextDecl × Option Config.ContextDecl)
    (q : ContextSpec × Option ContextSpec) : Prop :=
  h.Gives p.1 q.1 ∧ Option.Rel h.Gives p.2 q.2

theorem matches_preorder (d : Config.ContextDecl)
    (hall : ∀ e ∈ d.declared, e.aliasName ≠ "" ∧ h.Imports e) :
    ∃ s, h.Gives d s ∧ ∀ above parent, Option.Rel h.Gives above parent →
      List.Forall₂ h.Matches (d.preorder above) (s.preorder parent) := by
  induction d using Config.ContextDecl.induct with
  | h d ih =>
    rw [Config.ContextDecl.declared_eq] at hall
    obtain ⟨⟨halias, himports⟩, hrest⟩ := List.forall_mem_cons.1 hall
    obtain ⟨specs, hspecs⟩ := exists_forall₂_iff.2 fun e he => ih e he fun e' he' =>
      hrest e' (List.mem_flatMap.2 ⟨e, he, he'⟩)
    obtain ⟨s, hgives, rfl⟩ := gives_of_specs halias himports
      (mapM_eq_ok_iff.2 (hspecs.imp fun _ _ he => he.1.made))
    refine ⟨s, hgives, fun above parent hrel => ?_⟩
    rw [Config.ContextDecl.preorder_eq, ContextSpec.preorder_eq, ContextSpec.preorderAll_eq_flatMap]
    exact .cons ⟨hgives, hrel⟩ (List.rel_flatMap hspecs fun e s' he => he.2 _ _ (.some hgives))

/-- A configuration takes the aliases of declared contexts exactly when the tree that is built of them is
taken. The walk through the tree comes to what is declared in preorder, and every context in it has the alias,
the parameters, the capabilities and the place of its declaration. -/
theorem declared_agrees (halias : ∀ e ∈ d.declared, e.aliasName ≠ "")
    (himports : ∀ e ∈ d.declared, h.Imports e) :
    ∃ root, h.specOfDecl d = .ok root ∧
      (∀ c : RunnerConfig, c.contexts = some d →
        (Config.aliasFlaw c = none ↔ ∃ all, root.validate = .ok all)) ∧
      root.walk.map (·.1.aliasName) = d.declared.map (·.aliasName) ∧
      List.Forall₂ h.Matches (d.preorder none) root.walk := by
  obtain ⟨root, hgives, hmatches⟩ := matches_preorder d fun e he => ⟨halias e he, himports e he⟩
  have hwalk := hmatches none none .none
  rw [← ContextSpec.walk_eq_preorder] at hwalk
  have hsame : root.walk.map (·.1.aliasName) = d.declared.map (·.aliasName) := by
    rw [Config.ContextDecl.declared, List.map_map, ← List.forall₂_eq_eq_eq, List.forall₂_map_left_iff,
      List.forall₂_map_right_iff]
    exact hwalk.flip.imp fun _ _ hpair => hpair.1.aliasName
  refine ⟨root, hgives.made, fun c hc => ?_, hsame, hwalk⟩
  have hdistinct : root.Distinct ↔ d.aliases.Nodup := by
    rw [ContextSpec.Distinct, ContextSpec.contexts, ← ContextSpec.walk_eq_preorder, List.map_map,
      Config.ContextDecl.aliases, ← hsame]
    rfl
  rw [Config.aliasFlaw, hc, Option.map_eq_none_iff, Option.bind_some,
    Config.ContextDecl.repeatedAlias?_eq_none_iff List.nodup_nil, List.nil_append,
    List.flatMap_singleton, ← hdistinct]
  rcases root.validate_ends with ⟨hd, hvalid⟩ | ⟨hd, aliasName, first, second, hinvalid⟩
  · exact iff_of_true hd hvalid
  · rw [hinvalid]
    refine iff_of_false hd ?_
    rintro ⟨all, hall⟩
    cases hall

theorem importModule_behaviour : Host.empty.importModule behaviourModule =
    .ok ((Host.empty.module? behaviourModule).getD []) := by
  have hflaw : Host.empty.importFlaw behaviourModule.toList.reverse = none := by
    rw [importFlaw, dif_neg (by decide +kernel), if_pos (by decide +kernel)]
  rw [importModule, if_neg (by decide +kernel), if_neg (by decide +kernel), hflaw]

theorem importThing_behaviour : Host.empty.importThing (behaviourModule ++ ":" ++ behaviourName) =
    .ok (.contextClass behaviourClass) := by
  have hsplit : splitPath (behaviourModule ++ ":" ++ behaviourName) =
      (behaviourModule, some behaviourName) := by decide +kernel
  have hlookup : Host.empty.lookup? behaviourModule behaviourName =
      some (.contextClass behaviourClass) := by
    have hparts : behaviourName.splitOn "." = [behaviourName] := by
      rw [behaviourName, String.splitOn, if_neg (by decide)]
      iterate 15 rw [String.splitOnAux.eq_def, if_neg (by decide +kernel), if_neg (by decide +kernel)]
      rw [String.splitOnAux.eq_def, if_pos (by decide +kernel)]
      decide +kernel
    rw [lookup?, hparts]
    rfl
  rw [importThing, hsplit]
  dsimp only
  rw [if_neg (by decide +kernel), importModule_behaviour, hlookup]
  rfl

end Script.Host

namespace Sample

/-- A context of the class that is always there. -/
def declaration (aliasName : String) (subcontexts : List Config.ContextDecl) : Config.ContextDecl :=
  ⟨behaviourModule ++ ":" ++ behaviourName, aliasName, [], [aliasName], subcontexts⟩

def inns : Config.ContextDecl :=
  declaration "main" [declaration "desk" [declaration "safe" []], declaration "bar" []]

end Sample

theorem Script.Host.declared_agrees_sample : ∃ root, Host.empty.specOfDecl Sample.inns = .ok root ∧
    (∃ all, root.validate = .ok all) ∧ root.walk.map (·.1.aliasName) = ["main", "desk", "safe", "bar"] ∧
    List.Forall₂ Host.empty.Matches (Sample.inns.preorder none) root.walk := by
  have hpath : ∀ e ∈ Sample.inns.declared, e.path = behaviourModule ++ ":" ++ behaviourName := by
    decide +kernel
  have halias : ∀ e ∈ Sample.inns.declared, e.aliasName ≠ "" := by
    decide +kernel
  obtain ⟨root, hroot, hagrees, hwalk, hmatches⟩ := declared_agrees halias fun e he =>
    ⟨_, (hpath e he).symm ▸ importThing_behaviour, rfl⟩
  refine ⟨root, hroot, ?_, hwalk, hmatches⟩
  refine (hagrees { RunnerConfig.standard with contexts := some Sample.inns } rfl).1 ?_
  decide +kernel

end Rehearsal
