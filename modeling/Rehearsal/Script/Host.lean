import Rehearsal.Discovery
import Rehearsal.Script.Syntax

/-! The host of a rehearsal: the functions, classes and modules that scripts define. Everything that
can be called has an id, its position among the callees. A class is searched before its bases, bases in the
order in which they are listed, and both orders are kept for every class on the way. -/

namespace Rehearsal.Script
set_option autoImplicit false
open Rehearsal.Text

/-- Is `c` in the list, but not as its first? -/
def waits (c : Nat) (order : List Nat) : Bool := order.tail.contains c

def nextClass? (orders : List (List Nat)) : Option Nat :=
  (orders.filterMap List.head?).find? fun c => !orders.any (waits c)

def takeHead (c : Nat) (orders : List (List Nat)) : List (List Nat) :=
  (orders.map fun order => if order.head? == some c then order.tail else order).filter
    fun order => !order.isEmpty

/-- Merges orders into one that agrees with each, if there is one. -/
def mergeOrders : (fuel : Nat) → List (List Nat) → Option (List Nat)
  | 0, orders => if orders.isEmpty then some [] else none
  | fuel + 1, orders =>
    if orders.isEmpty then some []
    else do
      let c ← nextClass? orders
      return c :: (← mergeOrders fuel (takeHead c orders))

/-- The order of a class with bases, given theirs. -/
def lineageOf (self : Nat) (bases : List Nat) (orders : List (List Nat)) : Option (List Nat) := do
  let all := (orders ++ [bases]).filter fun order => !order.isEmpty
  return self :: (← mergeOrders all.flatten.length all)

/-- What a module or a class shows under a name. -/
inductive Thing where
  | value (v : Value)
  | callee (id : Nat)
  | contextClass (id : Nat)
deriving Inhabited

structure Function where
  callable : Callable
  qualname : String
  signature : Signature
  body : List Action
  shape : Shape
  marks : Marks
  /-- What a context decorator says, if there is one. -/
  capabilities : Option (List String)

namespace Function

/-- A function, and not an object of another kind in its place. -/
def isPlain (f : Function) : Bool :=
  match f.shape with
  | .function => true
  | _ => false

end Function

inductive Callee where
  | function (f : Function)
  /-- A class method reached through a class. -/
  | bound (function cls : Nat)
  | construct (cls : Nat)

structure Attribute where
  name : String
  wrapping : Wrapping
  thing : Thing
  /-- The marks on the wrapping. -/
  outer : Marks

structure Class where
  name : String
  qualname : String
  module : String
  /-- The class and those it extends, in the order of search. -/
  lineage : List Nat
  attributes : List Attribute
  marks : Marks
  capabilities : Option (List String)
  builder : Nat
  /-- The class as discovery sees it. -/
  seen : ContextClass

abbrev Namespace := List (String × Thing)

structure Host where
  callees : Array Callee
  classes : Array Class
  modules : List (String × Namespace)

/-- The class of contexts that know their place among others. -/
def behaviourClass : Nat := 0

def behaviourModule : String := "bdd_kernel.kernel.context"

def behaviourName : String := "BehaviorContext"

namespace Host

/-- Attributes of the class of contexts that know their place. -/
def behaviourAttributes : List Attribute :=
  ["_bdd_arena", "_bdd_node_id", "_bind_graph", "context_node", "main_context", "get_subcontext",
    "get_subcontext_by_capability"].map fun name => ⟨name, .plain, .value .null, .none⟩

def callableOf (id : Nat) (module qualname : String) : Callable :=
  { id := id, location := ⟨module, qualname, none⟩, signature := none }

/-- A member as discovery sees it, for what is no function. -/
def blankMember (name : String) (marks : Marks) : Member :=
  let nothing := callableOf 0 "" name
  ⟨name, .plain, false, nothing, nothing, marks, .none⟩

def empty : Host where
  callees := #[.construct behaviourClass]
  classes := #[⟨behaviourName, behaviourName, behaviourModule, [behaviourClass],
    behaviourAttributes, .none, none, 0,
    ⟨behaviourClass, behaviourName, behaviourName,
      [behaviourAttributes.map fun a => blankMember a.name .none]⟩⟩]
  modules := [(behaviourModule,
    [("ROOT_ALIAS", .value (.text rootAlias)), (behaviourName, .contextClass behaviourClass)])]

variable (h : Host)

def class? (id : Nat) : Option Class := h.classes[id]?

def function? (id : Nat) : Option Function :=
  match h.callees[id]? with
  | some (.function f) => some f
  | _ => none

def className (id : Nat) : String := ((h.class? id).map (·.name)).getD ""

/-- The first attribute of that name in the lineage of a class. -/
def attribute? (cls : Nat) (name : String) : Option Attribute := do
  let c ← h.class? cls
  c.lineage.firstM fun k => (h.class? k).bind fun c => c.attributes.find? (·.name == name)

/-- What is got from a class under a name. -/
def classThing? (cls : Nat) (name : String) : Option Thing := do
  let a ← h.attribute? cls name
  match a.wrapping, a.thing with
  | .ofClass, .callee f =>
    let found := h.callees.findIdx? fun
      | .bound g k => g == f && k == cls
      | _ => false
    return .callee (found.getD f)
  | _, thing => return thing

def module? (name : String) : Option Namespace := (h.modules.find? (·.1 == name)).map (·.2)

def member? (thing : Thing) (name : String) : Option Thing :=
  match thing with
  | .contextClass cls => h.classThing? cls name
  | _ => none

/-- What a dotted name in a module stands for. -/
def lookup? (module qualname : String) : Option Thing := do
  let ns ← h.module? module
  match qualname.splitOn "." with
  | [] => none
  | first :: rest =>
    let thing := (← ns.find? (·.1 == first)).2
    rest.foldlM h.member? thing

/-- The parts of a path before and after its first colon. -/
def splitPath (path : String) : String × Option String :=
  let cs := path.toList
  match cs.dropWhile (· != ':') with
  | [] => (path, none)
  | _ :: rest => (String.ofList (cs.takeWhile (· != ':')), some (String.ofList rest))

def resolve? (path : String) : Option Thing :=
  match splitPath path with
  | (name, none) => if name == behaviourName then some (.contextClass behaviourClass) else none
  | (module, some qualname) => h.lookup? module qualname

/-- The marks that are found on a class or those it extends. -/
def marksAlong (lineage : List Nat) (own : Marks) : Marks :=
  lineage.foldl (fun m k => m.orElse (((h.class? k).map (·.marks)).getD .none)) own

def capabilitiesAlong (lineage : List Nat) (own : Option (List String)) : Option (List String) :=
  lineage.foldl (fun c k => c.or ((h.class? k).bind (·.capabilities))) own

def marksOf : Thing → Marks
  | .value _ => .none
  | .callee id => ((h.function? id).map (·.marks)).getD .none
  | .contextClass id =>
    match h.class? id with
    | some c => h.marksAlong c.lineage .none
    | none => .none

def capabilitiesOf : Thing → Option (List String)
  | .value _ => none
  | .callee id => (h.function? id).bind (·.capabilities)
  | .contextClass id => (h.class? id).bind fun c => h.capabilitiesAlong c.lineage none

/-- An attribute of a class as discovery sees it. `bound` is what a class method becomes. -/
def memberOf (a : Attribute) (bound : Option Callable) : Member :=
  match a.thing with
  | .callee id =>
    match h.function? id with
    | some f => ⟨a.name, a.wrapping, f.isPlain, f.callable, bound.getD f.callable, f.marks, a.outer⟩
    | none => blankMember a.name .none
  | thing => blankMember a.name (h.marksOf thing)

def stepModule (name : String) (ns : Namespace) : StepModule :=
  ⟨name, ns.filterMap fun (name, thing) =>
    match thing with
    | .callee id => (h.function? id).map fun f => ⟨name, f.isPlain, f.callable, f.marks⟩
    | _ => none⟩

/-- What is not callable, in the place of a factory. -/
def uncallable (v : Value) : Callable :=
  { id := 0, location := ⟨"", v.shown, none⟩, signature := none, isCallable := false }

def factoryOf (thing : Thing) : Factory :=
  let capabilities := (h.capabilitiesOf thing).getD []
  match thing with
  | .value v => ⟨uncallable v, v.shown, capabilities, none⟩
  | .callee id =>
    match h.function? id with
    | some f =>
      ⟨f.callable, { f.callable.location with line := none }.display, capabilities, none⟩
    | none => ⟨callableOf id "" "", "", capabilities, none⟩
  | .contextClass id =>
    match h.class? id with
    | some c =>
      ⟨callableOf c.builder c.module c.qualname, c.module ++ "." ++ c.qualname, capabilities,
        some c.seen⟩
    | none => ⟨callableOf 0 "" "", "", capabilities, none⟩

end Host
end Rehearsal.Script
