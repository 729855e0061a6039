import Rehearsal.Proofs.Bootstrap.Findings
import Rehearsal.Proofs.Filter

/-! What becomes of a mark. An item is made of it, which belongs to the owner of the place; or a definition
is refused, which is an error of configuration; or the mark cannot be read. The last are faults of other
kinds: a tag filter with a term that has no tag, and a pattern that is given up for a reason other than its
form. -/

namespace Rehearsal
set_option autoImplicit false

/-- Is a mark one whose pattern is given up although it is not malformed? -/
def StepMark.unreadable (mark : StepMark) : Bool :=
  match mark.pattern with
  | .text source =>
    !source.isEmpty && stepKeywords.contains mark.keyword &&
      match Pattern.compile source with
      | .ok _ => false
      | .error e => !e.isMalformed
  | _ => false

def HookMark.unreadable (mark : HookMark) : Bool :=
  mark.tags.any fun source => !TagFilter.legible source

def Site.takesSteps : Site → Bool
  | member _ _ m => m.isMethod
  | function _ => true

def Site.takesHooks (phase : HookPhase) : Site → Bool
  | member _ _ m => if phase.instanceBound then m.isMethod else m.isStatic
  | function _ => true

/-- Is a mark in a place for such marks, and yet not to be read? -/
def Finding.unreadable : Finding → Bool
  | step site mark => site.takesSteps && mark.unreadable
  | hook site mark => site.takesHooks mark.phase && mark.unreadable

/-- A fault that is no error of configuration. -/
def Fault.Foreign (f : Fault) : Prop :=
  f.isConfiguration = false ∧ (f.kind = "ValueError" ∨ f.kind = "OverflowError")

/-- What a mark becomes: an item of its owner, a definition that is refused, or a fault of reading. -/
inductive Becomes (owner : Option String) : (unreadable : Bool) → Except Fault Item → Prop where
  | step (d : StepDefinition) : d.owner = owner → Becomes owner false (.ok (.step d))
  | hook (h : Hook) : h.owner = owner → Becomes owner false (.ok (.hook h))
  | refused (e : DefinitionError) : Becomes owner false (.error (.definition e))
  | unread (f : Fault) : f.Foreign → Becomes owner true (.error f)

theorem HookPhase.ofValue_text (phase : HookPhase) : ofValue (.text phase.text) = .ok phase := by
  cases phase <;> rfl

namespace Discovery

theorem foreign_pattern (source : String) (e : Pattern.PatternError) :
    (Fault.pattern source e).Foreign := by
  refine ⟨rfl, ?_⟩
  cases e with
  | repetitionTooLarge => exact .inr rfl
  | _ => exact .inl rfl

theorem becomes_stepItem (callable : Callable) (owner : Option String) (mark : StepMark) :
    Becomes owner mark.unreadable (stepItem callable owner mark) := by
  rcases mark with ⟨pattern, keyword, priority, types⟩
  unfold stepItem StepMark.unreadable StepDefinition.make
  cases pattern with
  | text source =>
    dsimp only
    cases source.isEmpty with
    | true => exact .refused _
    | false =>
      rw [if_neg Bool.false_ne_true]
      unfold StepDefinition.checkKeyword StepDefinition.compilePattern
      dsimp only
      cases stepKeywords.contains keyword with
      | false => exact .refused _
      | true =>
        cases Pattern.compile source with
        | error e =>
          dsimp only
          cases he : e.isMalformed with
          | true => exact .refused _
          | false => exact .unread _ (foreign_pattern source e)
        | ok compiled =>
          by_cases hlt : compiled.arity < (types.map typeOf).length
          · simp only [bind, Except.bind, if_pos hlt]
            exact .refused _
          · simp only [bind, Except.bind, if_neg hlt]
            cases ensureAccepts callable (1 + compiled.arity) ("step '" ++ source ++ "'") 1 with
            | error e => exact .refused e
            | ok _ => exact .step _ rfl
  | _ => exact .refused _

theorem tagsOf_ends (mark : HookMark) :
    mark.unreadable = false ∧ (∃ filter, Hook.tagsOf (Value.ofText? mark.tags) = .ok filter) ∨
      mark.unreadable = true ∧ ∃ f, f.Foreign ∧ Hook.tagsOf (Value.ofText? mark.tags) = .error f := by
  unfold HookMark.unreadable
  cases mark.tags with
  | none => exact .inl ⟨rfl, none, rfl⟩
  | some source =>
    rw [Option.any_some]
    rcases TagFilter.parse_ends source with ⟨hlegible, filter, hf⟩ | ⟨hlegible, f, hf, he⟩
    · rw [hlegible]
      exact .inl ⟨rfl, some filter, congrArg (Except.map some) hf⟩
    · rw [hlegible]
      refine .inr ⟨rfl, f, ?_, congrArg (Except.map some) hf⟩
      rcases he with rfl | rfl <;> exact ⟨rfl, .inl rfl⟩

theorem becomes_hookItem (callable : Callable) (owner : Option String) (mark : HookMark) :
    Becomes owner mark.unreadable (hookItem callable owner mark) := by
  unfold hookItem Hook.make
  rw [HookPhase.ofValue_text]
  -- The callable is looked at once the filter is read.
  rcases tagsOf_ends mark with ⟨hreadable, filter, hfilter⟩ | ⟨hunreadable, f, hf, hread⟩
  · rw [hreadable, hfilter]
    simp only [bind, Except.bind]
    cases ensureAccepts callable (Hook.argumentCount mark.phase) _ 0 with
    | error e => exact .refused e
    | ok _ => exact .hook _ rfl
  · rw [hunreadable, hread]
    exact .unread f hf

end Discovery

theorem Finding.becomes (x : Finding) : Becomes x.site.owner x.unreadable x.item := by
  rcases x with ⟨⟨path, owner, m⟩ | callable, mark⟩ | ⟨⟨path, owner, m⟩ | callable, mark⟩
  · rw [item, Discovery.memberStep, unreadable, Site.takesSteps]
    cases m.isMethod with
    | true => exact Discovery.becomes_stepItem m.inner _ mark
    | false => exact .refused _
  · exact Discovery.becomes_stepItem callable _ mark
  · rw [item, Discovery.memberHook, unreadable, Site.takesHooks]
    cases mark.phase.instanceBound with
    | true =>
      cases m.isMethod with
      | true => exact Discovery.becomes_hookItem m.inner _ mark
      | false => exact .refused _
    | false =>
      cases m.isStatic with
      | true => exact Discovery.becomes_hookItem m.reached _ mark
      | false => exact .refused _
  · exact Discovery.becomes_hookItem callable _ mark

end Rehearsal
