import Rehearsal.Script.Host

/-! Building: the functions, classes and modules of a script are put into the host, with what their
decorators leave on them. -/

namespace Rehearsal.Script
set_option autoImplicit false
open Rehearsal.Text

/-- A step of building: it changes the host, unless it fails. -/
abbrev Build := StateT Host (Except Fault)

namespace Build

def pushCallee (c : Callee) : Build Nat := do
  let h ← get
  set { h with callees := h.callees.push c }
  return h.callees.size

/-- The parameters of a function for which none are given. -/
def usualSignature : Signature := [⟨"ctx", .plain, false⟩, ⟨"args", .variadic, true⟩]

def anySignature : Signature := [⟨"args", .variadic, true⟩, ⟨"kwargs", .keywords, true⟩]

/-- The parameters of a callable of the language itself, where they are known. -/
def builtinSignature : String → Option Signature
  | "len" => some [⟨"obj", .positionalOnly, false⟩]
  | "print" =>
    some [⟨"args", .variadic, true⟩, ⟨"sep", .keywordOnly, true⟩, ⟨"end", .keywordOnly, true⟩,
      ⟨"file", .keywordOnly, true⟩, ⟨"flush", .keywordOnly, true⟩]
  | _ => none

/-- Where a function is written, and under what names. -/
structure Place where
  module : String
  qualname : String

/-- What callers see of a function: that which is wrapped innermost, if it wraps another. -/
def visible (module : String) : (qualname : String) → FunctionSpec → SourceLocation × Signature
  | _, ⟨_, _, _, _, _, _, _, some inner, _⟩ => visible module inner.name inner
  | qualname, ⟨_, ownModule, ownQualname, line, params, _, _, none, _⟩ =>
    (⟨ownModule.getD module, ownQualname.getD qualname, some line⟩, params.getD usualSignature)

def undecorated (id : Nat) (p : Place) (spec : FunctionSpec) : Function :=
  let (location, signature) := visible p.module p.qualname spec
  let callable : Callable :=
    match spec.shape with
    | .function => ⟨id, location, some signature, true⟩
    | .callableObject =>
      ⟨id, ⟨spec.module.getD p.module, "<CallableObject object>", none⟩, some anySignature, true⟩
    | .builtin name => ⟨id, ⟨"builtins", name, none⟩, builtinSignature name, true⟩
    | .plain v => ⟨id, ⟨"", v.shown, none⟩, none, false⟩
  { callable := callable
    qualname := spec.qualname.getD p.qualname
    signature := spec.params.getD usualSignature
    body := spec.body
    shape := spec.shape
    marks := .none
    capabilities := none }

def stepSlot : String := "__bdd_steps__"

def hookSlot : String := "__bdd_hooks__"

def contextSlot : String := "__bdd_context__"

def checkSlot (shape : Shape) (slot : String) : Except Fault Unit :=
  match shape with
  | .function | .callableObject => .ok ()
  | .builtin "int" =>
    .error (.shape (.other "TypeError"
      ("cannot set " ++ quoted slot ++ " attribute of immutable type 'int'")))
  | .builtin _ => .error (.shape (.noMember "builtin_function_or_method" slot))
  | .plain v => .error (.shape (.noMember v.kindName slot))

def phaseOf (phase : String) : Except Fault HookPhase := HookPhase.ofValue (.text phase)

/-- The mark of a hook decorator. Called with what is neither nothing nor a filter, the decorator
takes it for what it is applied to. -/
def hookMark (phase : String) (tags : Value) : Except Fault HookMark := do
  let phase ← phaseOf phase
  match tags with
  | .null => return ⟨phase, none⟩
  | .text s => return ⟨phase, some s⟩
  | v => throw (.shape (.noMember v.kindName hookSlot))

/-- What decorators leave on one thing. -/
structure Decorated where
  marks : Marks
  capabilities : Option (List String)

def decorate (check : String → Except Fault Unit) (d : Decorated) :
    Decorator → Except Fault Decorated
  | .step keyword pattern priority types => do
    let mark ← StepMark.ofDecorator keyword pattern priority types
    check stepSlot
    return { d with marks := d.marks.addStep mark }
  | .bareHook phase => do
    let phase ← phaseOf phase
    check hookSlot
    return { d with marks := d.marks.addHook ⟨phase, none⟩ }
  | .hook phase tags => do
    let mark ← hookMark phase tags
    check hookSlot
    return { d with marks := d.marks.addHook mark }
  | .context capabilities => do
    let names ← if capabilities.truthy then ContextSpec.capabilitiesOf capabilities else pure []
    check contextSlot
    return { d with capabilities := some names }

def decorateAll (check : String → Except Fault Unit) (d : Decorated) (ds : List Decorator) :
    Except Fault Decorated :=
  ds.reverse.foldlM (decorate check) d

def function (p : Place) (spec : FunctionSpec) : Build Nat := do
  let f := undecorated (← get).callees.size p spec
  let d ← decorateAll (checkSlot spec.shape) ⟨.none, none⟩ spec.decorators
  pushCallee (.function { f with marks := d.marks, capabilities := d.capabilities })

/-- The class that a path stands for; another thing is passed over. -/
def baseOf (path : String) : Build (List Nat) := do
  match (← get).resolve? path with
  | some (.contextClass id) => return [id]
  | _ => return []

def lineage (id : Nat) (bases : List Nat) : Build (List Nat) := do
  let h ← get
  let orders := bases.map fun b => ((h.class? b).map (·.lineage)).getD []
  match bases.find? fun b => bases.count b > 1 with
  | some b => throw (.shape (.other "TypeError" ("duplicate base class " ++ h.className b)))
  | none =>
    match lineageOf id bases orders with
    | some l => return l
    | none =>
      let names := String.intercalate ", " (bases.map h.className)
      throw (.shape (.other "TypeError"
        ("Cannot create a consistent method resolution\norder (MRO) for bases " ++ names)))

/-- The parameters of a method that is reached through its class. -/
def boundCallable (id : Nat) (f : Function) : Callable :=
  { f.callable with id := id, signature := f.callable.signature.bind Signature.dropFirst? }

/-- The layer of a class under `cls`, which reaches class methods through itself. -/
def layer (cls : Nat) : List Attribute → Build (List Member)
  | [] => return []
  | a :: as => do
    let bound : Option Callable ←
      match a.wrapping, a.thing with
      | .ofClass, .callee f => do
        let id ← pushCallee (.bound f cls)
        pure (((← get).function? f).map (boundCallable id))
      | _, _ => pure none
    let m := (← get).memberOf a bound
    return m :: (← layer cls as)

def layers (cls : Nat) : List (List Attribute) → Build (List (List Member))
  | [] => return []
  | as :: rest => do
    let first ← layer cls as
    return first :: (← layers cls rest)

def putAttribute (attributes : List Attribute) (a : Attribute) : List Attribute :=
  if attributes.any (·.name == a.name) then
    attributes.map fun old => if old.name == a.name then a else old
  else attributes ++ [a]

def attributeOf (p : Place) (spec : FunctionSpec) (wrapping : Wrapping) (outer : List Decorator) :
    Build Attribute := do
  match spec.shape with
  | .plain v => return ⟨spec.name, wrapping, .value v, .none⟩
  | _ =>
    let id ← function ⟨p.module, p.qualname ++ "." ++ spec.name⟩ spec
    let d ← decorateAll (fun _ => .ok ()) ⟨.none, none⟩ outer
    return ⟨spec.name, wrapping, .callee id, d.marks⟩

def classOf (name : String) (p : Place) (bases : List String) (attributes : List Attribute)
    (decorators : List Decorator) : Build Nat := do
  let mut baseIds := []
  for b in bases do
    baseIds := baseIds ++ (← baseOf b)
  let id := (← get).classes.size
  let line ← lineage id baseIds
  let builder ← pushCallee (.construct id)
  let h ← get
  let inherited : Decorated :=
    ⟨h.marksAlong line.tail .none, h.capabilitiesAlong line.tail none⟩
  let d ← decorateAll (fun _ => .ok ()) inherited decorators
  let own := line.reverse.map fun k =>
    if k == id then attributes else ((h.class? k).map (·.attributes)).getD []
  let seen := ⟨id, name, p.qualname, ← layers id own⟩
  modify fun h => { h with
    classes := h.classes.push
      ⟨name, p.qualname, p.module, line, attributes, d.marks, d.capabilities, builder, seen⟩ }
  return id

mutual

def contextClass (module outer : String) : ClassSpec → Build Nat
  | .mk name bases init members decorators => do
    let p : Place := ⟨module, outer ++ name⟩
    let first ←
      match init with
      | some f => do pure [← attributeOf p { f with name := "__init__" } .plain []]
      | none => pure []
    let rest ← memberList p members
    classOf name p bases ((first ++ rest).foldl putAttribute []) decorators

def memberList (p : Place) : List MemberSpec → Build (List Attribute)
  | [] => return []
  | m :: ms => do
    let a ← member p m
    return a :: (← memberList p ms)

def member (p : Place) : MemberSpec → Build Attribute
  | .function f wrapping outer => attributeOf p f wrapping outer
  | .nested name c => do
    let id ← contextClass p.module (p.qualname ++ ".") c
    return ⟨name, .plain, .contextClass id, .none⟩

end

def putThing (ns : Namespace) (name : String) (thing : Thing) : Namespace :=
  if ns.any (·.1 == name) then ns.map fun e => if e.1 == name then (name, thing) else e
  else ns ++ [(name, thing)]

def install (module name : String) (thing : Thing) : Build Unit :=
  modify fun h => { h with
    modules := h.modules.map fun (m, ns) =>
      if m == module then (m, putThing ns name thing) else (m, ns) }

def lastName (path : String) : String :=
  match (Host.splitPath path).2 with
  | some qualname => (qualname.splitOn ".").getLastD path
  | none => path

def item (module : String) (given : Option String) : ItemSpec → Build Unit
  | .classItem (.mk name bases init members decorators) => do
    let id ← contextClass module "" (.mk name bases init members decorators)
    install module (given.getD name) (.contextClass id)
  | .function spec => do
    match spec.shape with
    | .plain v => install module (given.getD spec.name) (.value v)
    | _ =>
      let id ← function ⟨module, spec.name⟩ spec
      install module (given.getD spec.name) (.callee id)
  | .reference path => do
    match (← get).resolve? path with
    | some thing => install module (given.getD (lastName path)) thing
    | none => throw (.shape (.other "KeyError" (quoted path)))
  | .value v => install module (given.getD "") (.value v)

def module (m : ModuleSpec) : Build Unit := do
  modify fun h => { h with
    modules := h.modules.filter (·.1 != m.name) ++ [(m.name, [])] }
  for (given, spec) in m.items do
    item m.name given spec

def host (modules : List ModuleSpec) : Except Fault Host := do
  let (_, h) ← (modules.forM module).run Host.empty
  return h

end Build
end Rehearsal.Script
