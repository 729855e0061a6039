import Rehearsal.Script.Exception
import Rehearsal.Script.World
import Rehearsal.Value.Equality

/-! Calls of scripts. A body is done action by action; what an action does shows in the world. -/

namespace Rehearsal.Script
set_option autoImplicit false
open Rehearsal.Text

/-- Something that scripts do: it changes the world, also when it ends in a fault. -/
abbrev Act := ExceptT Fault (StateM World)

def Act.ofExcept {α : Type} : Except Fault α → Act α
  | .ok a => pure a
  | .error f => throw f

/-- One call of a function. -/
structure Frame where
  host : Host
  /-- The parameters with what they hold, in order. -/
  params : List (Parameter × Subject)
  /-- The number of the call, counted from one. -/
  number : Nat
  /-- Makes an instance of a class, for which no parameters are given. -/
  make : (cls : Nat) → Act Value

namespace Scope

def feature? : Rehearsal.Scope → Option Feature
  | .suite .. => none
  | .feature f _ => some f
  | .scenario s => s.feature
  | .step s => s.scenario.feature

def status? : Rehearsal.Scope → Option Status
  | .suite _ r => r.map (·.status)
  | .feature _ r => r.map (·.status)
  | .scenario s => s.result.map (·.status)
  | .step s => s.result.map (·.status)

def scenarioName? : Rehearsal.Scope → Option String
  | .scenario s => some s.scenario.name
  | .step s => some s.scenario.scenario.name
  | _ => none

def index? : Rehearsal.Scope → Option Nat
  | .step s => some s.index
  | _ => none

def thing (name : String) : Value := .object name 0

def parts : Rehearsal.Scope → List (String × Value)
  | .suite features r =>
    [("features", .list (features.map fun _ => thing "Feature")),
      ("result", (r.map fun _ => thing "SuiteResult").getD .null)]
  | .feature _ r =>
    [("feature", thing "Feature"), ("result", (r.map fun _ => thing "FeatureResult").getD .null)]
  | .scenario s =>
    [("scenario_id", .text s.scenarioId), ("scenario", thing "Scenario"),
      ("feature", (s.feature.map fun _ => thing "Feature").getD .null),
      ("tags", thing "frozenset"),
      ("result", (s.result.map fun _ => thing "ScenarioResult").getD .null)]
  | .step s =>
    [("scenario", thing "ScenarioScope"), ("step", thing "ScenarioStep"), ("index", .int s.index),
      ("result", (s.result.map fun _ => thing "StepResult").getD .null)]

end Scope

namespace Frame

/-- What the first parameter holds is the context of a body. -/
def context (f : Frame) : Subject := ((f.params.head?).map (·.2)).getD .null

def last (f : Frame) : Subject := ((f.params.getLast?).map (·.2)).getD .null

def operand (f : Frame) : Operand → Subject
  | .literal v => .value v
  | .parameter name => ((f.params.find? (·.1.name == name)).map (·.2)).getD .null

def aspect (f : Frame) (a : Aspect) : Value :=
  let scope := f.last.scope?
  match a with
  | .call => .int f.number
  | .index => ((scope.bind Scope.index?).map fun i => Value.int i).getD .null
  | .scenario => Value.ofText? (scope.bind Scope.scenarioName?)
  | .feature => Value.ofText? ((scope.bind Scope.feature?).map (·.name))
  | .result => Value.ofText? ((scope.bind Scope.status?).map (·.text))

def allows (f : Frame) (only : List (Aspect × Value)) : Bool :=
  only.all fun (a, v) => (f.aspect a).same v

/-- All parameters but the first, with variadic ones spread out. -/
def argumentValues (f : Frame) : List Value :=
  f.params.tail.flatMap fun (p, s) =>
    match p.role, s with
    | .variadic, .many items => items.map Subject.toValue
    | _, s => [s.toValue]

end Frame

def behaviourMethods : List String :=
  ["_bind_graph", "get_subcontext", "get_subcontext_by_capability"]

def behaviourProperties : List String := ["context_node", "main_context"]

/-- Is an instance one of a context that knows its place? -/
def isBehaviour (h : Host) (w : World) (v : Value) : Bool :=
  match (w.cellOf? v).bind fun c => h.class? c.cls with
  | some c => c.lineage.contains behaviourClass
  | none => false

/-- The arena that a context is in, and its place there. -/
def placeOf (kind : String) (v : Value) : Act (Arena × Nat) := do
  match v with
  | .object _ id =>
    match (← get).placeOf? id with
    | some place => return place
    | none => throw (.detached kind)
  | _ => throw (.detached kind)

/-- What an attribute of a class gives when it is reached through an instance. -/
def attributeValue (a : Attribute) : Value :=
  match a.wrapping, a.thing with
  | _, .value v => v
  | .static, .callee _ => .object "function" 0
  | _, .callee _ => .object "method" 0
  | _, .contextClass _ => .object "type" 0

/-- An attribute that was set on a class or one that it extends. -/
def setOnClass? (w : World) (lineage : List Nat) (key : String) : Option Value :=
  lineage.findSome? fun k => (w.classAttributes.find? fun e => e.1 == k && e.2.1 == key).map (·.2.2)

/-- What contexts that know their place have of their own. -/
def behaviourAttribute? (v : Value) (key : String) : Act (Option Value) := do
  if behaviourMethods.contains key then return some (.object "method" 0)
  else if key == "context_node" then
    let _ ← placeOf v.kindName v
    return some (.object "ContextNode" 0)
  else if key == "main_context" then
    let (a, _) ← placeOf v.kindName v
    return some (← Act.ofExcept (a.node 0)).inst.value
  else
    let w ← get
    let place := match v with
      | .object _ id => w.placeOf? id
      | _ => none
    if key == "_bdd_node_id" then return some ((place.map fun p => Value.int p.2).getD .null)
    else if key == "_bdd_arena" then
      return some ((place.map fun _ => Value.object "ReferenceType" 0).getD .null)
    else return none

/-- An attribute of an instance, its own or that of its class. -/
def instanceAttribute? (h : Host) (v : Value) (cell : Cell) (key : String) :
    Act (Option Value) := do
  let w ← get
  let known ← if isBehaviour h w v then behaviourAttribute? v key else pure none
  match known with
  | some v => return some v
  | none =>
    let lineage := ((h.class? cell.cls).map (·.lineage)).getD []
    return ((cell.attributes.find? (·.1 == key)).map (·.2)).or
      ((setOnClass? w lineage key).or ((h.attribute? cell.cls key).map attributeValue))

def attribute? (h : Host) (s : Subject) (key : String) : Act (Option Value) := do
  let w ← get
  match s with
  | .value v =>
    match w.cellOf? v with
    | some cell => instanceAttribute? h v cell key
    | none => return none
  | .scope scope => return ((Scope.parts scope).find? (·.1 == key)).map (·.2)
  | .contextClass id =>
    let lineage := ((h.class? id).map (·.lineage)).getD []
    return (setOnClass? w lineage key).or ((h.attribute? id key).map attributeValue)
  | _ => return none

def missingAttribute (h : Host) (s : Subject) (key : String) : Fault :=
  match s with
  | .contextClass id =>
    .shape (.other "AttributeError"
      ("type object '" ++ h.className id ++ "' has no attribute '" ++ key ++ "'"))
  | s => .shape (.noMember s.kindName key)

def getAttribute (h : Host) (s : Subject) (key : String) : Act Value := do
  match ← attribute? h s key with
  | some v => return v
  | none => throw (missingAttribute h s key)

def setAttribute (h : Host) (s : Subject) (key : String) (v : Value) : Act Unit := do
  let w ← get
  match s with
  | .value (.object name id) =>
    match w.cell? id with
    | none => throw (.shape (.noMember name key))
    | some _ =>
      if isBehaviour h w (.object name id) && behaviourProperties.contains key then
        throw (.shape (.other "AttributeError"
          ("property '" ++ key ++ "' of '" ++ name ++ "' object has no setter")))
      else set (w.setAttribute id key v)
  | .contextClass id =>
    set { w with classAttributes := (id, key, v) :: w.classAttributes }
  | .scope scope =>
    if (Scope.parts scope).any (·.1 == key) then throw (.shape (.readOnly scope.kindName key))
    else
      throw (.shape (.other "TypeError"
        "super(type, obj): obj must be an instance or subtype of type"))
  | s => throw (.shape (.noMember s.kindName key))

def extended (old item : Value) : Except Fault Value :=
  match old with
  | .list items => .ok (.list (items ++ [item]))
  | .text _ => .error (.shape (.other "TypeError" "can only concatenate str (not \"list\") to str"))
  | v =>
    .error (.shape (.other "TypeError"
      ("unsupported operand type(s) for +: '" ++ v.kindName ++ "' and 'list'")))

/-- The query that a script makes of a context. -/
def queryOf (h : Host) : Wanted → Except Fault CapabilityQuery
  | .loose v => CapabilityQuery.ofValue v
  | .contextClass path =>
    match h.resolve? path with
    | some (.contextClass id) => .ok (.ofClass id (h.className id))
    | some (.value v) => CapabilityQuery.ofValue v
    | some (.callee _) => .error (.shape (.notIterable "function"))
    | none => .error (.shape (.other "KeyError" (quoted path)))

/-- How notes and messages call a way to another context. -/
def Target.name : Target → String
  | .main => "main"
  | .sub _ => "sub"
  | .capable _ => "cap"

/-- The attribute of a context that leads to another. -/
def Target.member : Target → String
  | .main => "main_context"
  | .sub _ => "get_subcontext"
  | .capable _ => "get_subcontext_by_capability"

/-- The context that a script turns to from another. -/
def reach (h : Host) (from_ : Subject) (t : Target) : Act Value := do
  match from_ with
  | .value v =>
    if isBehaviour h (← get) v then
      let (a, id) ← placeOf v.kindName v
      let here : Arena.Place := ⟨a, id⟩
      let there ←
        match t with
        | .main => Act.ofExcept here.root
        | .sub aliasName => Act.ofExcept (here.resolve aliasName)
        | .capable wanted => do
          let query ← Act.ofExcept (queryOf h wanted)
          Act.ofExcept (here.resolveByCapability query)
      return (← Act.ofExcept there.node).inst.value
    else throw (missingAttribute h from_ t.member)
  | s => throw (missingAttribute h s t.member)

/-- The class of a subject and its node, where it has one. -/
def identify (s : Subject) : Act Note := do
  match s with
  | .value (.object name id) => return .who name (((← get).placeOf? id).map (·.2))
  | s => return .who s.kindName none

def give (v : Value) : Act (Option Value) := return some v

def abortReason : Option Value → Option String
  | none => some AbortSignal.defaultReason
  | some .null => none
  | some v => some v.display

mutual

/-- Does an action with a context. The answer is what the body gives, once it gives something. -/
def act (f : Frame) (context : Subject) : Action → Act (Option Value)
  | .mk only d => if f.allows only then deed f context d else return none

def deed (f : Frame) (context : Subject) : Deed → Act (Option Value)
  | .log text => do
    modify (·.note (.text text))
    return none
  | .who => do
    let note ← identify context
    modify (·.note note)
    return none
  | .args => do
    modify (·.note (.args f.argumentValues))
    return none
  | .scope => do
    modify (·.note (.scope f.last))
    return none
  | .set key o => do
    setAttribute f.host context key (f.operand o).toValue
    return none
  | .append key o => do
    let old := (← attribute? f.host context key).getD (.list [])
    setAttribute f.host context key (← Act.ofExcept (extended old (f.operand o).toValue))
    return none
  | .get key => do
    let v ← getAttribute f.host context key
    modify (·.note (.got key v))
    return none
  | .expect key o message => do
    let v ← getAttribute f.host context key
    if v.same (f.operand o).toValue then return none
    else throw (faultOf "AssertionError" (some message))
  | .raise kind message => throw (faultOf kind (message.filter fun v => !v.isNull))
  | .abort reason => do
    modify fun w => { w with signal := w.signal.request (abortReason reason) }
    return none
  | .give o => give (f.operand o).toValue
  | .giveNew path => do
    match f.host.resolve? path with
    | some (.contextClass id) => give (← f.make id)
    | _ => give .null
  | .visit target body => do
    let v ← reach f.host context target
    modify (·.note (.visited target.name v.kindName))
    let _ ← acts f (.value v) body
    return none
  | .idle => return none

def acts (f : Frame) (context : Subject) : List Action → Act (Option Value)
  | [] => return none
  | a :: as => do
    match ← act f context a with
    | some v => return some v
    | none => acts f context as

end

def slotSubject : Slot Subject → Subject
  | .given s => s
  | .absent => .null
  | .many items => .many items
  | .named items => .named items

def runFunction (h : Host) (make : (cls : Nat) → Act Value) (id : Nat) (fn : Function)
    (args : List Subject) (named : List (String × Subject)) : Act Value := do
  match fn.signature.bind fn.qualname args named with
  | .error e => throw (.binding e)
  | .ok bound =>
    modify (·.countCall id)
    let frame : Frame :=
      ⟨h, bound.map fun (p, slot) => (p, slotSubject slot), (← get).countOf id, make⟩
    return (← acts frame frame.context fn.body).getD .null

/-- A call of a callable of the language itself. -/
def callBuiltin (name : String) (args : List Subject) : Act Value :=
  let kind := ((args.head?).map Subject.kindName).getD "NoneType"
  match name with
  | "print" => return .null
  | "len" =>
    throw (.shape (.other "TypeError"
      (if args.length == 1 then "object of type '" ++ kind ++ "' has no len()"
        else s!"len() takes exactly one argument ({args.length} given)")))
  | _ =>
    throw (.shape (.other "TypeError"
      (if args.length < 2 then
        "int() argument must be a string, a bytes-like object or a real number, not '" ++ kind ++ "'"
        else "int() can't convert non-string with explicit base")))

def callFunction (h : Host) (make : (cls : Nat) → Act Value) (id : Nat) (fn : Function)
    (args : List Subject) (named : List (String × Subject)) : Act Value :=
  match fn.shape with
  | .builtin name => callBuiltin name args
  | _ => runFunction h make id fn args named

/-- The function by which instances of a class are set up. -/
def initializer? (h : Host) (cls : Nat) : Option (Nat × Function) := do
  match (← h.attribute? cls "__init__").thing with
  | .callee id => return (id, ← h.function? id)
  | _ => none

def checkInitialized (v : Value) : Act Unit :=
  if v.isNull then pure ()
  else
    throw (.shape (.other "TypeError" ("__init__() should return None, not '" ++ v.kindName ++ "'")))

/-- Makes an instance of a class. Instances may be made inside each other to a certain depth. -/
def makeInstance (h : Host) : (depth : Nat) → (cls : Nat) → List (String × Subject) → Act Value
  | 0, _, _ => throw (.shape (.other "RecursionError" "maximum recursion depth exceeded"))
  | depth + 1, cls, named => do
    let name := h.className cls
    match initializer? h cls with
    | none =>
      if named.isEmpty then
        let (v, w) := (← get).create cls name
        set w
        return v
      else throw (.binding (.takesNothing (((h.class? cls).map (·.qualname)).getD name)))
    | some (id, fn) =>
      let (v, w) := (← get).create cls name
      set w
      let made ← callFunction h (fun k => makeInstance h depth k []) id fn [.value v] named
      checkInitialized made
      return v

/-- How deep instances may be made inside each other. -/
def makeDepth : Nat := 200

def call (h : Host) (callee : Nat) (args : List Subject) (named : List (String × Subject)) :
    Act Value :=
  let make := fun k => makeInstance h makeDepth k []
  match h.callees[callee]? with
  | some (.function f) => callFunction h make callee f args named
  | some (.bound function cls) =>
    match h.function? function with
    | some f => callFunction h make function f (.contextClass cls :: args) named
    | none => return .null
  | some (.construct cls) => makeInstance h makeDepth cls named
  | none => return .null

def lineageOfValue (h : Host) (w : World) (v : Value) : List Nat :=
  match (w.cellOf? v).bind fun c => h.class? c.cls with
  | some c => c.lineage
  | none => []

def construct (h : Host) (f : Factory) (params : List (String × Value)) : Act Instance := do
  let v ← call h f.callable.id [] (params.map fun (k, v) => (k, .value v))
  return ⟨v, lineageOfValue h (← get) v⟩

def subjectOf : Argument → Subject
  | .value v => .value v
  | .scope s => .scope s

end Rehearsal.Script
