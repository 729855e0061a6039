import Rehearsal.Run.Request

/-! Composition: the contexts of a tree are constructed in walk order, each once. When one of them
fails, those before it are handed back, so that their cleanup can still run. -/

namespace Rehearsal
set_option autoImplicit false

/-- A composition that failed, and what was constructed before. -/
structure Broken where
  fault : Fault
  salvaged : Option Arena

namespace Composition

def namedParams (params : Value) : Except Fault (List (String × Value)) := do
  let entries ← params.toEntries Value.same
  entries.mapM fun (k, v) =>
    match k with
    | .text s => .ok (s, v)
    | _ => .error .keywordNotText

def construct (s : ContextSpec) : Routine (Except Fault Instance) :=
  match namedParams s.params with
  | .error f => pure (.error f)
  | .ok params => Program.request (Request.construct s.factory params)

/-- Faults that are handed on as they are, and not as the failure of a construction. -/
def escapes (f : Fault) : Bool := f.family == .interrupt || f.family == .exit

def salvage (a : Arena) : Routine (Option Arena) :=
  if a.size == 0 then pure none
  else do
    Program.request (Request.attach a)
    return some a

def composeFrom : Arena → List (ContextSpec × Option ContextSpec) → Routine (Except Broken Arena)
  | a, [] => do
    Program.request (Request.attach a)
    return .ok a
  | a, (s, parent) :: rest => do
    match ← construct s with
    | .error f =>
      if escapes f then return .error ⟨f, none⟩
      else
        let salvaged ← salvage a
        return .error ⟨.construction s.aliasName s.identity f, salvaged⟩
    | .ok inst =>
      let node : Node :=
        ⟨s.aliasName, inst, s.effectiveCapabilities, parent.bind fun p => a.find? p.aliasName⟩
      match a.add node with
      | .error f => return .error ⟨f, none⟩
      | .ok a => composeFrom a rest

end Composition

/-- Builds the contexts of a tree in a fresh arena. -/
def compose (root : ContextSpec) : Routine (Except Broken Arena) :=
  match root.validate with
  | .error f => pure (.error ⟨f, none⟩)
  | .ok _ => Composition.composeFrom Arena.empty root.walk

end Rehearsal
