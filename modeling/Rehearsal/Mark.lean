import Rehearsal.Definition

/-! Marks: what decorators leave on a callable or a class for discovery to find. Marks are kept in
the order in which they were put on, so the decorator nearest to the callable comes first. -/

namespace Rehearsal
set_option autoImplicit false

/-- The mark of a step. What it says is not looked at before a definition is made from it. -/
structure StepMark where
  pattern : Value
  keyword : String
  priority : Value
  types : List Value

namespace StepMark

/-- A mark must have a pattern and one of the keywords. -/
def make (pattern keyword priority types : Value) : Except Fault StepMark :=
  if !pattern.truthy then .error .blankMark
  else if !keyword.hashable then .error (.shape (.unhashable keyword.kindName))
  else
    match keyword with
    | .text s =>
      if stepKeywords.contains s then do
        let types ← if types.truthy then types.iterate else pure []
        return ⟨pattern, s, priority, types⟩
      else .error .badMarkKeyword
    | _ => .error .badMarkKeyword

/-- The mark that a decorator of a keyword makes; its types are read first. -/
def ofDecorator (keyword : String) (pattern priority types : Value) : Except Fault StepMark := do
  let types ← if types.truthy then types.iterate else pure []
  make pattern (.text keyword) priority (.list types)

end StepMark

structure HookMark where
  phase : HookPhase
  tags : Option String
deriving DecidableEq, Repr

/-- The step and hook marks of one thing. -/
structure Marks where
  steps : List StepMark
  hooks : List HookMark

namespace Marks

def none : Marks := ⟨[], []⟩

def isEmpty (m : Marks) : Bool := m.steps.isEmpty && m.hooks.isEmpty

/-- The marks of the first, and those of the second where the first has none. -/
def orElse (a b : Marks) : Marks :=
  ⟨if a.steps.isEmpty then b.steps else a.steps, if a.hooks.isEmpty then b.hooks else a.hooks⟩

def addStep (m : Marks) (s : StepMark) : Marks := { m with steps := m.steps ++ [s] }

def addHook (m : Marks) (h : HookMark) : Marks := { m with hooks := m.hooks ++ [h] }

end Marks
end Rehearsal
