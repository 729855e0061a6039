import Rehearsal.Context.Spec
import Rehearsal.Registry

/-! Discovery: definitions and hooks made from the marks on the members of context classes and on
the functions of modules. -/

namespace Rehearsal
set_option autoImplicit false

/-- What a module holds under a name. -/
structure ModuleEntry where
  name : String
  isFunction : Bool
  callable : Callable
  marks : Marks

structure StepModule where
  name : String
  entries : List ModuleEntry

namespace Discovery

/-- The type that an item of a mark names. -/
def typeOf : Value → Option String
  | .null => none
  | v => some v.display

/-- The priority of a definition, for what its mark was given. A mark keeps any value, but priorities are
declared to be integers, with truth values among them. Values of other kinds are outside of what a mark may be
given: they have no place in the order of priorities, and so count as none given, which is 0. -/
def priorityOf : Value → Int
  | .int n => n
  | .bool b => if b then 1 else 0
  | _ => 0

def stepItem (callable : Callable) (owner : Option String) (m : StepMark) : Except Fault Item :=
  (StepDefinition.make m.pattern callable owner (priorityOf m.priority) (.text m.keyword)
    (m.types.map typeOf) none).map .step

def hookItem (callable : Callable) (owner : Option String) (m : HookMark) : Except Fault Item :=
  (Hook.make (.text m.phase.text) callable owner (Value.ofText? m.tags) none).map .hook

def memberStep (path : String) (owner : String) (m : Member) (mark : StepMark) :
    Except Fault Item :=
  if m.isMethod then stepItem m.inner (some owner) mark
  else .error (.definition (.stepNotMethod path))

/-- Scenario and step hooks belong on plain methods. The others run without an instance, so they
belong on static and class methods. -/
def memberHook (path : String) (owner : String) (m : Member) (mark : HookMark) :
    Except Fault Item :=
  if mark.phase.instanceBound then
    if m.isMethod then hookItem m.inner (some owner) mark
    else .error (.definition (.hookNotMethod path mark.phase.text))
  else if m.isStatic then hookItem m.reached (some owner) mark
  else .error (.definition (.hookNotStatic path mark.phase.text))

def ofMember (c : ContextClass) (owner : String) (m : Member) : Except Fault (List Item) := do
  let path := c.qualname ++ "." ++ m.name
  let steps ← m.marks.steps.mapM (memberStep path owner m)
  let hooks ← m.marks.hooks.mapM (memberHook path owner m)
  return steps ++ hooks

def ofClass (c : ContextClass) (owner : String) : Except Fault (List Item) :=
  return (← c.members.mapM (ofMember c owner)).flatten

def ofSpec (s : ContextSpec) : Except Fault (List Item) :=
  match s.factory.contextClass with
  | some c => ofClass c s.aliasName
  | none => .ok []

/-- The items of every context of a tree, in walk order. -/
def ofTree (root : ContextSpec) : Except Fault (List Item) := do
  return (← (← root.validate).mapM ofSpec).flatten

def ofEntry (e : ModuleEntry) : Except Fault (List Item) := do
  let steps ← e.marks.steps.mapM (stepItem e.callable none)
  let hooks ← e.marks.hooks.mapM (hookItem e.callable none)
  return steps ++ hooks

/-- The functions with marks, each at its first occurrence only. -/
def markedFunctions : (seen : List Nat) → List ModuleEntry → List ModuleEntry
  | _, [] => []
  | seen, e :: es =>
    if e.isFunction && !e.marks.isEmpty && !seen.contains e.callable.id then
      e :: markedFunctions (e.callable.id :: seen) es
    else markedFunctions seen es

/-- The items of every function with marks, however many modules show it. -/
def ofModules (modules : List StepModule) : Except Fault (List Item) :=
  return (← (markedFunctions [] (modules.flatMap (·.entries))).mapM ofEntry).flatten

end Discovery

/-- A registry with more items, or the first fault. -/
def Registry.extend (r : Registry) (items : List Item) : Except Fault Registry :=
  match r.registerAll items with
  | (r, none) => .ok r
  | (_, some e) => .error e

/-- The frozen registry of a tree of contexts and the modules beside it. -/
def buildRegistry (root : ContextSpec) (modules : List StepModule) : Except Fault Registry := do
  let r ← Registry.empty.extend (← Discovery.ofTree root)
  let r ← r.extend (← Discovery.ofModules modules)
  return r.freeze

end Rehearsal
