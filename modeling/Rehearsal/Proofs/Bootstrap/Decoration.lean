import Rehearsal.Proofs.Bootstrap.Lookup
import Rehearsal.Script.Build

/-! What decorators come to. Each leaves a mark, and marks lie in the order in which decorators are applied,
from the bottom up. A member that is wrapped has decorators inside and outside: discovery takes the hooks of
those inside, and those of the wrapping only where there are none inside. -/

namespace Rehearsal
set_option autoImplicit false
open Script

namespace Script.Decorator

def isStep : Decorator → Bool
  | step .. => true
  | _ => false

def isHook : Decorator → Bool
  | bareHook _ | hook .. => true
  | _ => false

/-- The mark of a decorator of a step. -/
inductive LeavesStep : Decorator → StepMark → Prop
  | mk {keyword : String} {pattern priority types : Value} {mark : StepMark} :
      StepMark.ofDecorator keyword pattern priority types = .ok mark →
      LeavesStep (step keyword pattern priority types) mark

/-- The mark of a decorator of a hook. -/
inductive LeavesHook : Decorator → HookMark → Prop
  | bare {name : String} {phase : HookPhase} : Build.phaseOf name = .ok phase →
      LeavesHook (bareHook name) ⟨phase, none⟩
  | called {name : String} {tags : Value} {mark : HookMark} : Build.hookMark name tags = .ok mark →
      LeavesHook (hook name tags) mark

theorem LeavesStep.kind {dec : Decorator} {mark : StepMark} (h : dec.LeavesStep mark) :
    dec.isStep = true ∧ dec.isHook = false := by
  cases h
  exact ⟨rfl, rfl⟩

theorem LeavesHook.kind {dec : Decorator} {mark : HookMark} (h : dec.LeavesHook mark) :
    dec.isStep = false ∧ dec.isHook = true := by
  cases h <;> exact ⟨rfl, rfl⟩

def DefinesStep (site : Site) (dec : Decorator) (d : StepDefinition) : Prop :=
  ∃ mark, dec.LeavesStep mark ∧ mark.Makes site d

def DefinesHook (site : Site) (dec : Decorator) (h : Hook) : Prop :=
  ∃ mark, dec.LeavesHook mark ∧ mark.Makes site h

end Script.Decorator

/-- Marks are what decorators leave. The decorators are listed from the top. -/
def Marks.LeftBy (marks : Marks) (ds : List Decorator) : Prop :=
  ∃ check d, Build.decorateAll check ⟨Marks.none, Option.none⟩ ds = .ok d ∧ d.marks = marks

namespace Script.Build
variable {check : String → Except Fault Unit} {d d' : Decorated} {dec : Decorator}

/-- What one decorator adds. -/
theorem decorate_cases (h : decorate check d dec = .ok d') :
    (∃ mark, dec.LeavesStep mark ∧ d'.marks = d.marks.addStep mark) ∨
    (∃ mark, dec.LeavesHook mark ∧ d'.marks = d.marks.addHook mark) ∨
    (dec.isStep = false ∧ dec.isHook = false ∧ d'.marks = d.marks) := by
  cases dec with
  | step keyword pattern priority types =>
    obtain ⟨mark, hmark, h⟩ := except_bind_eq_ok_iff.1 h
    obtain ⟨_, _, h⟩ := except_bind_eq_ok_iff.1 h
    cases h
    exact .inl ⟨mark, .mk hmark, rfl⟩
  | bareHook name =>
    obtain ⟨phase, hphase, h⟩ := except_bind_eq_ok_iff.1 h
    obtain ⟨_, _, h⟩ := except_bind_eq_ok_iff.1 h
    cases h
    exact .inr (.inl ⟨_, .bare hphase, rfl⟩)
  | hook name tags =>
    obtain ⟨mark, hmark, h⟩ := except_bind_eq_ok_iff.1 h
    obtain ⟨_, _, h⟩ := except_bind_eq_ok_iff.1 h
    cases h
    exact .inr (.inl ⟨mark, .called hmark, rfl⟩)
  | context capabilities =>
    refine .inr (.inr ⟨rfl, rfl, ?_⟩)
    rw [decorate] at h
    split at h
    · obtain ⟨_, _, h⟩ := except_bind_eq_ok_iff.1 h
      obtain ⟨_, _, h⟩ := except_bind_eq_ok_iff.1 h
      cases h
      rfl
    · rw [pure_bind] at h
      obtain ⟨_, _, h⟩ := except_bind_eq_ok_iff.1 h
      cases h
      rfl

end Script.Build

namespace Marks
variable {marks : Marks} {ds : List Decorator}

/-- Every decorator leaves its mark, by induction from the decorator at the bottom, which is applied first. -/
theorem LeftBy.leaves (h : marks.LeftBy ds) :
    List.Forall₂ Decorator.LeavesStep (ds.reverse.filter (·.isStep)) marks.steps ∧
    List.Forall₂ Decorator.LeavesHook (ds.reverse.filter (·.isHook)) marks.hooks := by
  obtain ⟨check, d, h, rfl⟩ := h
  induction ds generalizing d with
  | nil =>
    cases h
    exact ⟨.nil, .nil⟩
  | cons dec ds ih =>
    rw [Build.decorateAll, List.reverse_cons, List.foldlM_append] at h
    obtain ⟨before, hbefore, h⟩ := except_bind_eq_ok_iff.1 h
    obtain ⟨hsteps, hhooks⟩ := ih before hbefore
    rw [List.foldlM_cons] at h
    obtain ⟨after, hafter, h⟩ := except_bind_eq_ok_iff.1 h
    cases h
    rw [List.reverse_cons, List.filter_append, List.filter_append, List.filter_singleton,
      List.filter_singleton]
    rcases Build.decorate_cases hafter with ⟨mark, hmark, heq⟩ | ⟨mark, hmark, heq⟩ | ⟨hs, hk, heq⟩
    · rw [hmark.kind.1, hmark.kind.2, heq]
      exact ⟨List.rel_append hsteps (.cons hmark .nil), by rwa [cond_false, List.append_nil]⟩
    · rw [hmark.kind.1, hmark.kind.2, heq]
      exact ⟨by rwa [cond_false, List.append_nil], List.rel_append hhooks (.cons hmark .nil)⟩
    · rw [hs, hk, heq, cond_false, List.append_nil, List.append_nil]
      exact ⟨hsteps, hhooks⟩

theorem LeftBy.isEmpty_hooks (h : marks.LeftBy ds) : marks.hooks.isEmpty = !ds.any (·.isHook) := by
  have hlength := h.leaves.2.length_eq
  rw [← List.countP_eq_length_filter, List.countP_reverse] at hlength
  rw [Bool.eq_iff_iff, Bool.not_eq_true', List.isEmpty_iff_length_eq_zero, ← hlength, List.countP_eq_zero,
    List.any_eq_false]

end Marks

namespace Script.Build

theorem run_bind_eq_ok_iff {α β : Type} {x : Build α} {f : α → Build β} {h : Host} {r : β × Host} :
    (x >>= f).run h = .ok r ↔ ∃ a h₁, x.run h = .ok (a, h₁) ∧ (f a).run h₁ = .ok r := by
  rw [StateT.run_bind, except_bind_eq_ok_iff, Prod.exists]

theorem run_lift_eq_ok_iff {α : Type} {x : Except Fault α} {h h' : Host} {a : α} :
    (liftM x : Build α).run h = .ok (a, h') ↔ x = .ok a ∧ h' = h := by
  cases x with
  | error f => exact ⟨nofun, fun hx => nomatch hx.1⟩
  | ok b =>
    constructor
    · intro hrun
      cases hrun
      exact ⟨rfl, rfl⟩
    · rintro ⟨hb, rfl⟩
      cases hb
      rfl

/-- A function that is put into the host has the marks of its decorators. -/
theorem marks_of_function {p : Place} {spec : FunctionSpec} {h h' : Host} {id : Nat}
    (hrun : (function p spec).run h = .ok (id, h')) :
    ∃ f, h'.function? id = some f ∧ f.marks.LeftBy spec.decorators := by
  obtain ⟨_, h₁, hget, hrun⟩ := run_bind_eq_ok_iff.1 hrun
  cases hget
  obtain ⟨d, h₂, hlift, hpush⟩ := run_bind_eq_ok_iff.1 hrun
  obtain ⟨hd, rfl⟩ := run_lift_eq_ok_iff.1 hlift
  cases hpush
  refine ⟨{ undecorated h₂.callees.size p spec with marks := d.marks, capabilities := d.capabilities },
    ?_, _, d, hd, rfl⟩
  rw [Host.function?, Array.getElem?_push_size]

end Script.Build

/-- What is got at a place from decorators: a definition from each of a step, then a hook from each of a hook,
in the order of application. -/
def Site.Gets (site : Site) (steps hooks : List Decorator) (items : List Item) : Prop :=
  ∃ definitions hs, List.Forall₂ (Decorator.DefinesStep site) (steps.reverse.filter (·.isStep)) definitions ∧
    List.Forall₂ (Decorator.DefinesHook site) (hooks.reverse.filter (·.isHook)) hs ∧
    items = definitions.map .step ++ hs.map .hook

theorem Marks.Yields.gets {marks : Marks} {site : Site} {items : List Item} {steps hooks : List Decorator}
    (h : marks.Yields site items)
    (hsteps : List.Forall₂ Decorator.LeavesStep (steps.reverse.filter (·.isStep)) marks.steps)
    (hhooks : List.Forall₂ Decorator.LeavesHook (hooks.reverse.filter (·.isHook)) marks.hooks) :
    site.Gets steps hooks items := by
  obtain ⟨definitions, hs, hdefinitions, hhs, rfl⟩ := h
  exact ⟨definitions, hs, forall₂_comp hsteps hdefinitions, forall₂_comp hhooks hhs, rfl⟩

theorem Item.filterMap_definition? (definitions : List StepDefinition) (hs : List Hook) :
    (definitions.map step ++ hs.map hook).filterMap definition? = definitions := by
  simp [List.filterMap_map, Function.comp_def, definition?]

theorem Item.filterMap_hook? (definitions : List StepDefinition) (hs : List Hook) :
    (definitions.map step ++ hs.map hook).filterMap hook? = hs := by
  simp [List.filterMap_map, Function.comp_def, hook?]

theorem Site.Gets.count {site : Site} {steps hooks : List Decorator} {items : List Item}
    (h : site.Gets steps hooks items) :
    (items.filterMap Item.definition?).length = steps.countP (·.isStep) ∧
    (items.filterMap Item.hook?).length = hooks.countP (·.isHook) := by
  obtain ⟨definitions, hs, hdefinitions, hhs, rfl⟩ := h
  rw [Item.filterMap_definition?, Item.filterMap_hook?, ← hdefinitions.length_eq, ← hhs.length_eq,
    ← List.countP_eq_length_filter, ← List.countP_eq_length_filter, List.countP_reverse,
    List.countP_reverse]
  exact ⟨rfl, rfl⟩

namespace Member
variable {m : Member} {inner outer : List Decorator} {path owner : String} {items : List Item}

/-- A member has the marks that decorators left, those inside on what is wrapped and those outside on the
wrapping. A plain one has no wrapping. -/
structure Decorated (m : Member) (inner outer : List Decorator) : Prop where
  inside : m.innerMarks.LeftBy inner
  outside : m.outerMarks.LeftBy outer
  plain : m.wrapping = .plain → outer = []

/-- What becomes of decorators at the place of a member. None of a step is lost. Those of hooks outside are
lost when there are others of hooks inside, and only then. -/
structure Keeps (site : Site) (inner outer : List Decorator) (items : List Item) : Prop where
  steps : (items.filterMap Item.definition?).length = (inner ++ outer).countP (·.isStep)
  hooks : (items.filterMap Item.hook?).length = (inner ++ outer).countP (·.isHook) ↔
    (inner.any (·.isHook) && outer.any (·.isHook)) = false
  got : site.Gets inner (if inner.any (·.isHook) then inner else outer) items

/-- What discovery makes of a member, and how its decorators fare in it, whichever they are. -/
structure KeptIn (c : ContextClass) (owner : String) (m : Member) (items : List Item) : Prop where
  found : Discovery.ofMember c owner m = .ok items
  kept : ∀ inner outer, m.Decorated inner outer →
    Keeps (.member (c.qualname ++ "." ++ m.name) owner m) inner outer items

/-- No step is marked on a wrapping, where discovery finds something. -/
theorem Decorated.outer_steps (hm : m.Decorated inner outer)
    (h : m.marks.Yields (.member path owner m) items) : m.outerMarks.steps = [] := by
  by_cases hplain : m.wrapping = .plain
  · have hsteps := hm.outside.leaves.1
    rw [hm.plain hplain] at hsteps
    exact List.forall₂_nil_left_iff.1 hsteps
  · obtain ⟨definitions, _, hmade, _⟩ := h
    have hnone : m.marks.steps = [] := by
      rcases hsteps : m.marks.steps with _ | ⟨mark, rest⟩
      · rfl
      · rw [hsteps] at hmade
        obtain ⟨d, _, hd, _⟩ := List.forall₂_cons_left_iff.1 hmade
        have htaken := hd.taken
        simp [Site.takesSteps, isMethod, isStatic, hplain] at htaken
    rw [marks, Marks.orElse] at hnone
    dsimp only at hnone
    split at hnone
    · exact hnone
    · rename_i hempty
      exact absurd (List.isEmpty_iff.2 hnone) hempty

theorem Decorated.gets (hm : m.Decorated inner outer) (h : m.marks.Yields (.member path owner m) items) :
    Site.Gets (.member path owner m) inner (if inner.any (·.isHook) then inner else outer) items := by
  obtain ⟨hsteps, hhooks⟩ := hm.inside.leaves
  refine h.gets ?_ ?_
  · have hsame : m.marks.steps = m.innerMarks.steps := by
      rw [marks, Marks.orElse, hm.outer_steps h]
      dsimp only
      split
      · rename_i hempty
        exact (List.isEmpty_iff.1 hempty).symm
      · rfl
    rwa [hsame]
  · rw [marks, Marks.orElse, hm.inside.isEmpty_hooks]
    dsimp only
    cases inner.any (·.isHook) with
    | true => exact hhooks
    | false => exact hm.outside.leaves.2

theorem Decorated.keeps (hm : m.Decorated inner outer) (h : m.marks.Yields (.member path owner m) items) :
    Keeps (.member path owner m) inner outer items := by
  have hgets := hm.gets h
  obtain ⟨hsteps, hhooks⟩ := hgets.count
  refine ⟨?_, ?_, hgets⟩
  · have hnone := hm.outside.leaves.1.length_eq
    rw [hm.outer_steps h, ← List.countP_eq_length_filter, List.countP_reverse] at hnone
    rw [hsteps, List.countP_append, hnone, List.length_nil, Nat.add_zero]
  · rw [hhooks, List.countP_append]
    cases hany : inner.any (·.isHook) with
    | true =>
      rw [if_pos rfl, Bool.true_and, List.any_eq_false, ← List.countP_eq_zero, Nat.left_eq_add]
    | false =>
      rw [List.any_eq_false, ← List.countP_eq_zero] at hany
      rw [if_neg Bool.false_ne_true, Bool.false_and, hany, Nat.zero_add]
      exact iff_of_true rfl rfl

end Member

/-- A function that a script declares as a member of a class is decorated as the script says. -/
theorem Script.Build.decorated_of_attributeOf {p : Place} {spec : FunctionSpec} {wrapping : Wrapping}
    {outer : List Decorator} {h h' : Host} {a : Attribute} {bound : Option Callable}
    (hspec : ∀ v, spec.shape ≠ .plain v) (houter : wrapping = .plain → outer = [])
    (hrun : (attributeOf p spec wrapping outer).run h = .ok (a, h')) :
    (h'.memberOf a bound).Decorated spec.decorators outer := by
  unfold attributeOf at hrun
  split at hrun
  · rename_i v hv
    exact absurd hv (hspec v)
  · obtain ⟨id, h₁, hid, hrun⟩ := run_bind_eq_ok_iff.1 hrun
    obtain ⟨f, hf, hmarks⟩ := marks_of_function hid
    obtain ⟨d, _, hlift, hlast⟩ := run_bind_eq_ok_iff.1 hrun
    obtain ⟨hd, rfl⟩ := run_lift_eq_ok_iff.1 hlift
    cases hlast
    unfold Host.memberOf
    dsimp only
    rw [hf]
    exact ⟨hmarks, ⟨_, d, hd, rfl⟩, houter⟩

/-- Where discovery takes a class, every decorator of a step on a member becomes a definition, and every
decorator of a hook becomes a hook, unless the member has decorators of hooks both inside and outside. -/
theorem ContextClass.kept_of_ofClass {c : ContextClass} {owner : String} {items : List Item}
    (h : Discovery.ofClass c owner = .ok items) :
    ∃ parts, items = parts.flatten ∧ List.Forall₂ (Member.KeptIn c owner) c.members parts := by
  obtain ⟨parts, hparts, h⟩ := except_bind_eq_ok_iff.1 h
  cases h
  refine ⟨parts, rfl, (mapM_eq_ok_iff.1 hparts).imp fun m part hpart => ⟨hpart, ?_⟩⟩
  intro inner outer hm
  rw [Discovery.ofMember_eq] at hpart
  exact hm.keeps (Marks.yields_of_findings hpart)

namespace Sample

/-- A static method with a decorator of a hook inside and another on the wrapping. -/
def unlocking : Member :=
  ⟨"unlock", .static, true, callable 1 "unlock", callable 1 "unlock", ⟨[], [⟨.beforeSuite, none⟩]⟩,
    ⟨[], [⟨.afterSuite, none⟩]⟩⟩

def lobby : ContextClass := ⟨0, "Lobby", "Lobby", [[unlocking]]⟩

end Sample

/-- Of its two hooks one is lost. -/
theorem ContextClass.kept_of_ofClass_sample : ∃ items,
    Discovery.ofClass Sample.lobby "main" = .ok items ∧ (items.filterMap Item.hook?).length = 1 ∧
    Sample.unlocking.Decorated [.bareHook "before_suite"] [.bareHook "after_suite"] ∧
    ∃ parts, items = parts.flatten ∧
      List.Forall₂ (Member.KeptIn Sample.lobby "main") Sample.lobby.members parts := by
  obtain ⟨items, hitems, hcount⟩ : ∃ items, Discovery.ofClass Sample.lobby "main" = .ok items ∧
      ((items.filterMap Item.hook?).length == 1) = true := exists_ok_of_any (by decide +kernel)
  exact ⟨items, hitems, eq_of_beq hcount,
    ⟨⟨fun _ => .ok (), _, rfl, rfl⟩, ⟨fun _ => .ok (), _, rfl, rfl⟩, nofun⟩, kept_of_ofClass hitems⟩

end Rehearsal
