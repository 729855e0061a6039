import Rehearsal.Definition

/-! The registry of step definitions and hooks, in registration order. It is filled before a run and
frozen when one starts. -/

namespace Rehearsal
set_option autoImplicit false

/-- What may be handed to a registry. -/
inductive Item where
  | step (definition : StepDefinition)
  | hook (hook : Hook)
  /-- Something that is neither. -/
  | other (kind : String)

structure Registry where
  definitions : List StepDefinition
  /-- Hooks of all phases. -/
  registered : List Hook
  frozen : Bool

namespace Registry

def empty : Registry := ⟨[], [], false⟩

def hasKey (r : Registry) (key : String × Nat × Int) : Bool := r.definitions.any (·.key == key)

def register (r : Registry) (item : Item) : Except Fault Registry :=
  if r.frozen then .error .registryFrozen
  else
    match item with
    | .step d =>
      if r.hasKey d.key then .error (.duplicatePattern d.source d.arity d.priority)
      else .ok { r with definitions := r.definitions ++ [d] }
    | .hook h => .ok { r with registered := r.registered ++ [h] }
    | .other kind => .error (.unregistrable kind)

/-- Registers items up to the first that is refused. -/
def registerAll (r : Registry) : List Item → Registry × Option Fault
  | [] => (r, none)
  | item :: items =>
    match r.register item with
    | .ok r => registerAll r items
    | .error e => (r, some e)

def freeze (r : Registry) : Registry := { r with frozen := true }

def hooksOf (r : Registry) (phase : HookPhase) : List Hook :=
  r.registered.filter (·.phase == phase)

def hooks (r : Registry) : List Hook := HookPhase.all.flatMap r.hooksOf

/-- The hooks of a phase that apply to a set of tags. -/
def lookup (r : Registry) (phase : HookPhase) (tags : Option (List String)) :
    Except Fault (List Hook) := do
  let marked ← (r.hooksOf phase).mapM fun h => return (h, ← h.appliesTo tags)
  return (marked.filter (·.2)).map (·.1)

def owners (r : Registry) : List String :=
  sortedSet (r.definitions.filterMap (·.owner) ++ r.registered.filterMap (·.owner))

def size (r : Registry) : Nat := r.definitions.length + r.registered.length

@[simp] theorem freeze_definitions (r : Registry) : r.freeze.definitions = r.definitions := rfl

@[simp] theorem freeze_registered (r : Registry) : r.freeze.registered = r.registered := rfl

end Registry
end Rehearsal
