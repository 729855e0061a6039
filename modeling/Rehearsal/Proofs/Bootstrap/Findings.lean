import Rehearsal.Proofs.Construction
import Rehearsal.Discovery

/-! What discovery finds. Marks stand on the members of context classes and on the functions of modules,
and discovery comes to them one by one: context after context in preorder, member after member, then
function after function, and wherever several stand together to the step marks first. An item is made of
each, up to the first that is refused, and the items that are made are registered in that order. -/

namespace Rehearsal
set_option autoImplicit false

/-- Where marks stand. -/
inductive Site where
  /-- On a member of a class, which has a path and belongs to a context. -/
  | member (path owner : String) (m : Member)
  | function (callable : Callable)

/-- Who owns what is made of the marks. -/
def Site.owner : Site → Option String
  | member _ owner _ => some owner
  | function _ => none

/-- A mark with the place where it stands. -/
inductive Finding where
  | step (site : Site) (mark : StepMark)
  | hook (site : Site) (mark : HookMark)

namespace Finding

def site : Finding → Site
  | step s _ => s
  | hook s _ => s

def item : Finding → Except Fault Item
  | step (.member path owner m) mark => Discovery.memberStep path owner m mark
  | step (.function callable) mark => Discovery.stepItem callable none mark
  | hook (.member path owner m) mark => Discovery.memberHook path owner m mark
  | hook (.function callable) mark => Discovery.hookItem callable none mark

end Finding

def Marks.findings (marks : Marks) (site : Site) : List Finding :=
  marks.steps.map (.step site) ++ marks.hooks.map (.hook site)

/-- The marks on the members of the class of a context. -/
def ContextSpec.ownFindings (s : ContextSpec) : List Finding :=
  match s.factory.contextClass with
  | some c => c.members.flatMap fun m =>
    m.marks.findings (.member (c.qualname ++ "." ++ m.name) s.aliasName m)
  | none => []

def ContextSpec.findings (root : ContextSpec) : List Finding := root.contexts.flatMap ownFindings

def StepModule.findings (modules : List StepModule) : List Finding :=
  (Discovery.markedFunctions [] (modules.flatMap (·.entries))).flatMap fun e =>
    e.marks.findings (.function e.callable)

theorem mapM_flatMap_eq {ε α β γ : Type} (f : α → List β) (g : β → Except ε γ) (as : List α) :
    (as.flatMap f).mapM g = do return (← as.mapM fun a => (f a).mapM g).flatten := by
  induction as with
  | nil => rfl
  | cons a as ih =>
    rw [List.flatMap_cons, List.mapM_append, ih, List.mapM_cons]
    cases (f a).mapM g with
    | error e => rfl
    | ok cs => cases as.mapM fun a => (f a).mapM g <;> rfl

theorem ContextSpec.eq_of_validateFrom {seen specs all : List ContextSpec}
    (h : validateFrom seen specs = .ok all) : all = seen ++ specs := by
  induction specs generalizing seen with
  | nil =>
    cases h
    exact (List.append_nil _).symm
  | cons s ss ih =>
    rw [validateFrom] at h
    split at h
    · cases h
    · rw [ih h, List.append_assoc, List.singleton_append]

theorem ContextSpec.eq_of_validate {root : ContextSpec} {all : List ContextSpec}
    (h : root.validate = .ok all) : all = root.contexts := by
  rw [validate, walk_eq_preorder] at h
  exact eq_of_validateFrom h

namespace Discovery

theorem ofMarks_eq (marks : Marks) (site : Site) {f : StepMark → Except Fault Item}
    {g : HookMark → Except Fault Item} (hf : ∀ mark, f mark = (Finding.step site mark).item)
    (hg : ∀ mark, g mark = (Finding.hook site mark).item) :
    (do let steps ← marks.steps.mapM f
        let hooks ← marks.hooks.mapM g
        return steps ++ hooks) = (marks.findings site).mapM Finding.item := by
  rw [Marks.findings, List.mapM_append, List.mapM_map, List.mapM_map, funext hf, funext hg]
  rfl

theorem ofMember_eq (c : ContextClass) (owner : String) (m : Member) :
    ofMember c owner m =
      (m.marks.findings (.member (c.qualname ++ "." ++ m.name) owner m)).mapM Finding.item :=
  ofMarks_eq m.marks _ (fun _ => rfl) fun _ => rfl

theorem ofEntry_eq (e : ModuleEntry) :
    ofEntry e = (e.marks.findings (.function e.callable)).mapM Finding.item :=
  ofMarks_eq e.marks _ (fun _ => rfl) fun _ => rfl

theorem ofSpec_eq (s : ContextSpec) : ofSpec s = s.ownFindings.mapM Finding.item := by
  rw [ofSpec, ContextSpec.ownFindings]
  cases s.factory.contextClass with
  | none => rfl
  | some c =>
    dsimp only
    rw [ofClass, mapM_flatMap_eq, funext (ofMember_eq c s.aliasName)]

theorem ofTree_eq (root : ContextSpec) :
    ofTree root = root.validate >>= fun _ => root.findings.mapM Finding.item := by
  rw [ofTree]
  cases h : root.validate with
  | error f => rfl
  | ok all =>
    rw [ContextSpec.eq_of_validate h, ContextSpec.findings, mapM_flatMap_eq, ← funext ofSpec_eq]
    rfl

theorem ofModules_eq (modules : List StepModule) :
    ofModules modules = (StepModule.findings modules).mapM Finding.item := by
  rw [ofModules, StepModule.findings, mapM_flatMap_eq, funext ofEntry_eq]

end Discovery

namespace Item

def definition? : Item → Option StepDefinition
  | step d => some d
  | _ => none

def hook? : Item → Option Hook
  | hook h => some h
  | _ => none

end Item

namespace Registry
variable {r r' : Registry} {items : List Item}

theorem entries_of_register {item : Item} (h : r.register item = .ok r') :
    r'.definitions = r.definitions ++ [item].filterMap Item.definition? ∧
      r'.registered = r.registered ++ [item].filterMap Item.hook? := by
  unfold register at h
  split at h
  · cases h
  · cases item with
    | step d =>
      dsimp only at h
      split at h <;> cases h
      exact ⟨rfl, (List.append_nil _).symm⟩
    | hook k =>
      cases h
      exact ⟨(List.append_nil _).symm, rfl⟩
    | other kind => cases h

/-- A registry that takes all items keeps them in their order. -/
theorem entries_of_extend (h : r.extend items = .ok r') :
    r'.definitions = r.definitions ++ items.filterMap Item.definition? ∧
      r'.registered = r.registered ++ items.filterMap Item.hook? := by
  induction items generalizing r with
  | nil =>
    cases h
    exact ⟨(List.append_nil _).symm, (List.append_nil _).symm⟩
  | cons item items ih =>
    rw [extend, registerAll] at h
    cases hr : r.register item with
    | error f =>
      rw [hr] at h
      cases h
    | ok r₁ =>
      rw [hr] at h
      obtain ⟨hdefinitions, hregistered⟩ := entries_of_register hr
      rw [(ih h).1, (ih h).2, hdefinitions, hregistered, List.append_assoc, List.append_assoc,
        ← List.filterMap_append, ← List.filterMap_append]
      exact ⟨rfl, rfl⟩

end Registry

theorem buildRegistry_eq (root : ContextSpec) (modules : List StepModule) :
    buildRegistry root modules = root.validate >>= fun _ => do
      let r ← Registry.empty.extend (← root.findings.mapM Finding.item)
      let r ← r.extend (← (StepModule.findings modules).mapM Finding.item)
      return r.freeze := by
  rw [buildRegistry, Discovery.ofTree_eq, Discovery.ofModules_eq, bind_assoc]

/-- What a registry was built from: the items made of a tree, and after them those made of modules. -/
theorem entries_of_buildRegistry {root : ContextSpec} {modules : List StepModule} {r : Registry}
    (h : buildRegistry root modules = .ok r) :
    ∃ items, (root.findings ++ StepModule.findings modules).mapM Finding.item = .ok items ∧
      r.definitions = items.filterMap Item.definition? ∧
      r.registered = items.filterMap Item.hook? ∧ r.frozen = true := by
  rw [buildRegistry_eq] at h
  obtain ⟨_, _, h⟩ := except_bind_eq_ok_iff.1 h
  obtain ⟨own, hown, h⟩ := except_bind_eq_ok_iff.1 h
  obtain ⟨r₁, hr₁, h⟩ := except_bind_eq_ok_iff.1 h
  obtain ⟨shared, hshared, h⟩ := except_bind_eq_ok_iff.1 h
  obtain ⟨r₂, hr₂, h⟩ := except_bind_eq_ok_iff.1 h
  cases h
  obtain ⟨hdefinitions₁, hregistered₁⟩ := Registry.entries_of_extend hr₁
  obtain ⟨hdefinitions₂, hregistered₂⟩ := Registry.entries_of_extend hr₂
  refine ⟨own ++ shared, ?_, ?_, ?_, rfl⟩
  · rw [List.mapM_append, hown, hshared]
    rfl
  · rw [Registry.freeze_definitions, hdefinitions₂, hdefinitions₁, List.filterMap_append]
    rfl
  · rw [Registry.freeze_registered, hregistered₂, hregistered₁, List.filterMap_append]
    rfl

end Rehearsal
