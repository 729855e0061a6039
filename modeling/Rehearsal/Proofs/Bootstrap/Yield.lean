import Rehearsal.Proofs.Binding
import Rehearsal.Proofs.Bootstrap.Making

/-! What marks yield. Of every mark in its place one definition or hook is made, which has the owner of the
place and calls what stands there; the items keep the order of the marks, and those of steps come first. -/

namespace Rehearsal
set_option autoImplicit false

namespace Site

/-- What a step that is marked at a place calls. -/
def stepCallable : Site → Callable
  | member _ _ m => m.inner
  | function callable => callable

/-- What a hook calls. One that runs without an instance is called as it is reached through the class. -/
def hookCallable (phase : HookPhase) : Site → Callable
  | member _ _ m => if phase.instanceBound then m.inner else m.reached
  | function callable => callable

end Site

/-- A definition is made of a mark in its place. -/
structure StepMark.Makes (mark : StepMark) (site : Site) (d : StepDefinition) : Prop where
  taken : site.takesSteps = true
  callable : d.callable = site.stepCallable
  owner : d.owner = site.owner
  pattern : mark.pattern = .text d.source
  keyword : d.keyword = mark.keyword
  priority : d.priority = Discovery.priorityOf mark.priority
  types : d.types = mark.types.map Discovery.typeOf

/-- A hook is made of a mark in its place. -/
structure HookMark.Makes (mark : HookMark) (site : Site) (h : Hook) : Prop where
  taken : site.takesHooks mark.phase = true
  callable : h.callable = site.hookCallable mark.phase
  owner : h.owner = site.owner
  phase : h.phase = mark.phase
  tags : h.tags.map (·.source) = mark.tags

/-- Items are what marks yield at a place: one for each mark, in their order. -/
def Marks.Yields (marks : Marks) (site : Site) (items : List Item) : Prop :=
  ∃ steps hooks, List.Forall₂ (·.Makes site) marks.steps steps ∧
    List.Forall₂ (·.Makes site) marks.hooks hooks ∧ items = steps.map .step ++ hooks.map .hook

theorem StepDefinition.eq_of_checkKeyword {s keyword : String}
    (h : checkKeyword (.text s) = .ok keyword) : keyword = s := by
  change (if stepKeywords.contains s then .ok s else .error _) = Except.ok keyword at h
  split at h
  · exact (Except.ok.inj h).symm
  · cases h

theorem Hook.source_of_tagsOf {tags : Option String} {filter : Option TagFilter}
    (h : tagsOf (Value.ofText? tags) = .ok filter) : filter.map (·.source) = tags := by
  cases tags with
  | none =>
    cases h
    rfl
  | some source =>
    change (TagFilter.parse source).map some = .ok filter at h
    cases hp : TagFilter.parse source with
    | error f =>
      rw [hp] at h
      cases h
    | ok parsed =>
      rw [hp] at h
      cases h
      obtain ⟨clauses, _, hparsed⟩ := except_bind_eq_ok_iff.1 hp
      cases hparsed
      rfl

namespace Discovery
variable {callable : Callable} {owner : Option String} {i : Item}

theorem exists_of_stepItem {mark : StepMark} (h : stepItem callable owner mark = .ok i) :
    ∃ d, i = .step d ∧ d.callable = callable ∧ d.owner = owner ∧ mark.pattern = .text d.source ∧
      d.keyword = mark.keyword ∧ d.priority = priorityOf mark.priority ∧
      d.types = mark.types.map typeOf := by
  unfold stepItem at h
  generalize hmade : StepDefinition.make _ _ _ _ _ _ _ = made at h
  cases made with
  | error f => cases h
  | ok d =>
    cases h
    obtain ⟨hpattern, _, hkeyword, hcallable, howner, hpriority, htypes, _⟩ :=
      StepDefinition.of_make hmade
    exact ⟨d, rfl, hcallable, howner, hpattern, StepDefinition.eq_of_checkKeyword hkeyword, hpriority,
      htypes⟩

theorem exists_of_hookItem {mark : HookMark} (h : hookItem callable owner mark = .ok i) :
    ∃ k, i = .hook k ∧ k.callable = callable ∧ k.owner = owner ∧ k.phase = mark.phase ∧
      k.tags.map (·.source) = mark.tags := by
  unfold hookItem at h
  generalize hmade : Hook.make _ _ _ _ _ = made at h
  cases made with
  | error f => cases h
  | ok k =>
    cases h
    obtain ⟨hphase, htags, hcallable, howner, _⟩ := Hook.of_make hmade
    rw [HookPhase.ofValue_text] at hphase
    exact ⟨k, rfl, hcallable, howner, (Except.ok.inj hphase).symm, Hook.source_of_tagsOf htags⟩

end Discovery

namespace Finding
variable {site : Site} {i : Item}

theorem exists_of_step {mark : StepMark} (h : (step site mark).item = .ok i) :
    ∃ d, i = .step d ∧ mark.Makes site d := by
  cases site with
  | function callable =>
    obtain ⟨d, rfl, hcallable, howner, hpattern, hkeyword, hpriority, htypes⟩ :=
      Discovery.exists_of_stepItem h
    exact ⟨d, rfl, rfl, hcallable, howner, hpattern, hkeyword, hpriority, htypes⟩
  | member path owner m =>
    rw [item, Discovery.memberStep] at h
    split at h
    · rename_i hmethod
      obtain ⟨d, rfl, hcallable, howner, hpattern, hkeyword, hpriority, htypes⟩ :=
        Discovery.exists_of_stepItem h
      exact ⟨d, rfl, hmethod, hcallable, howner, hpattern, hkeyword, hpriority, htypes⟩
    · cases h

theorem exists_of_hook {mark : HookMark} (h : (hook site mark).item = .ok i) :
    ∃ k, i = .hook k ∧ mark.Makes site k := by
  cases site with
  | function callable =>
    obtain ⟨k, rfl, hcallable, howner, hphase, htags⟩ := Discovery.exists_of_hookItem h
    exact ⟨k, rfl, rfl, hcallable, howner, hphase, htags⟩
  | member path owner m =>
    rw [item, Discovery.memberHook] at h
    split at h <;> rename_i hbound
    all_goals
      split at h
      · rename_i hplace
        obtain ⟨k, rfl, hcallable, howner, hphase, htags⟩ := Discovery.exists_of_hookItem h
        exact ⟨k, rfl, by simp [Site.takesHooks, hbound, hplace],
          by simp [Site.hookCallable, hbound, hcallable], howner, hphase, htags⟩
      · cases h

end Finding

/-- What is found at a place and not refused is what its marks yield. -/
theorem Marks.yields_of_findings {marks : Marks} {site : Site} {items : List Item}
    (h : (marks.findings site).mapM Finding.item = .ok items) : marks.Yields site items := by
  rw [findings, List.mapM_append, List.mapM_map, List.mapM_map] at h
  obtain ⟨own, hown, h⟩ := except_bind_eq_ok_iff.1 h
  obtain ⟨rest, hrest, h⟩ := except_bind_eq_ok_iff.1 h
  cases h
  obtain ⟨steps, hsteps, rfl⟩ := exists_map_of_mapM (fun _ _ => Finding.exists_of_step) hown
  obtain ⟨hooks, hhooks, rfl⟩ := exists_map_of_mapM (fun _ _ => Finding.exists_of_hook) hrest
  exact ⟨steps, hooks, hsteps, hhooks, rfl⟩

end Rehearsal
