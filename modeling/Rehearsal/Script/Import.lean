import Rehearsal.Script.Host

/-! Importing what scripts define: modules by their dotted names, and what they show by paths. -/

namespace Rehearsal.Script
set_option autoImplicit false
open Rehearsal.Text

/-- Why a module cannot be imported. -/
inductive ImportError where
  | missing (name : String)
  /-- The module that should hold it holds no others. -/
  | notPackage (name parent : String)
  | blank
  | relative (name : String)
deriving DecidableEq, Repr

namespace ImportError

def message : ImportError → String
  | missing name => "No module named " ++ quoted name
  | notPackage name parent =>
    "No module named " ++ quoted name ++ "; " ++ quoted parent ++ " is not a package"
  | blank => "Empty module name"
  | relative name =>
    "the 'package' argument is required to perform a relative import for " ++ quoted name

/-- A module that is not there is an error of configuration, a name that can be none is not. -/
def toFault (e : ImportError) (wrapped : String → ConfigError) : Fault :=
  match e with
  | missing _ | notPackage .. => .config (wrapped e.message)
  | blank => .ofKind "ValueError" e.message
  | relative _ => .ofKind "TypeError" e.message

end ImportError

namespace Host

/-- The packages that are there beside the modules of scripts: those around the module of contexts. -/
def packages : List String := ["bdd_kernel", "bdd_kernel.kernel"]

/-- The name in front of the last point, the last part first. -/
def parentOf (name : List Char) : List Char := (name.dropWhile (· != '.')).drop 1

theorem length_parentOf_lt {name : List Char} (h : name ≠ []) :
    (parentOf name).length < name.length := by
  have h1 := (List.dropWhile_sublist (· != '.') (l := name)).length_le
  have h2 : 0 < name.length := List.length_pos_iff.2 h
  simp only [parentOf, List.length_drop]
  omega

variable (h : Host)

def isModule (name : String) : Bool := (h.module? name).isSome || packages.contains name

/-- What is wrong with importing the module of a name, which is given from its end. The modules around
it are imported first. -/
def importFlaw (name : List Char) : Option ImportError :=
  if hn : name = [] then none
  else
    have := length_parentOf_lt hn
    let text := String.ofList name.reverse
    if h.isModule text then none
    else if (parentOf name).isEmpty then some (.missing text)
    else
      match importFlaw (parentOf name) with
      | some e => some e
      | none =>
        let parent := String.ofList (parentOf name).reverse
        if packages.contains parent then some (.missing text) else some (.notPackage text parent)
termination_by name.length

def importModule (name : String) : Except ImportError Namespace :=
  if name.isEmpty then .error .blank
  else if name.startsWith "." then .error (.relative name)
  else
    match h.importFlaw name.toList.reverse with
    | some e => .error e
    | none => .ok ((h.module? name).getD [])

def importThing (path : String) : Except Fault Thing := do
  match splitPath path with
  | (module, some qualname) =>
    if module.isEmpty || qualname.isEmpty then throw (.config (.badImportPath path))
    match h.importModule module with
    | .error e => throw (e.toFault (.noModule module))
    | .ok _ =>
      match h.lookup? module qualname with
      | some thing => return thing
      | none => throw (.config (.noAttribute module qualname))
  | (_, none) => throw (.config (.badImportPath path))

/-- The module of a name with what it shows. -/
def importStepModule (name : String) : Except Fault StepModule :=
  match h.importModule name with
  | .error e => .error (e.toFault (.noStepModule name))
  | .ok ns => .ok (h.stepModule name ns)

/-- The kind of what was imported, and the name that it has of its own. -/
def describe : Thing → String × Option String
  | .value v => (v.kindName, none)
  | .contextClass id => ("type", (h.class? id).map (·.qualname))
  | .callee id =>
    match h.callees[id]? with
    | some (.function f) =>
      match f.shape with
      | .function => ("function", some f.qualname)
      | .callableObject => ("CallableObject", none)
      | .builtin name =>
        if name == "int" then ("type", some name) else ("builtin_function_or_method", some name)
      | .plain v => (v.kindName, none)
    | some (.bound f _) => ("method", (h.function? f).map (·.qualname))
    | some (.construct cls) => ("type", (h.class? cls).map (·.qualname))
    | none => ("NoneType", none)

end Host
end Rehearsal.Script
