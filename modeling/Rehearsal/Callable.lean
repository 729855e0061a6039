import Rehearsal.Text.Quoted

/-! Callables as the runner sees them: where they are written and what arguments they take. What a call does
is up to the surroundings of a run, which know the callable by its id. Positional arguments go to the
positional parameters in order, what is left to a variadic one; keyword arguments go by name. -/

namespace Rehearsal
set_option autoImplicit false
open Rehearsal.Text

/-- How a parameter takes its argument. -/
inductive Role where
  | positionalOnly
  | plain
  | variadic
  | keywordOnly
  | keywords
deriving DecidableEq, Repr

structure Parameter where
  name : String
  role : Role
  optional : Bool
deriving DecidableEq, Repr

namespace Parameter

def isPositional (p : Parameter) : Bool := p.role == .positionalOnly || p.role == .plain

def takesName (p : Parameter) : Bool := p.role == .plain || p.role == .keywordOnly

def isCollector (p : Parameter) : Bool := p.role == .variadic || p.role == .keywords

def isRequired (p : Parameter) : Bool := !p.optional && !p.isCollector

end Parameter

abbrev Signature := List Parameter

namespace Signature

def positional (s : Signature) : List Parameter := s.filter Parameter.isPositional

def required (s : Signature) : List Parameter := s.filter Parameter.isRequired

def hasVariadic (s : Signature) : Bool := s.any (·.role == .variadic)

/-- What is left of a signature once its first argument is given. `none` when nothing can take it. -/
def dropFirst? : Signature → Option Signature
  | [] => none
  | p :: ps => if p.isPositional then some ps else if p.role == .variadic then some (p :: ps) else none

end Signature

/-- Why a call does not bind. -/
inductive BindingError where
  | tooMany (callee : String) (least most given named : Nat)
  | missing (callee : String) (byName : Bool) (names : List String)
  | unexpected (callee keyword : String)
  | onlyPositional (callee : String) (names : List String)
  | twice (callee name : String)
  | takesNothing (callee : String)
deriving DecidableEq, Repr

def enumerate (names : List String) : String :=
  match names.map quoted with
  | [] => ""
  | [a] => a
  | [a, b] => a ++ " and " ++ b
  | many => String.intercalate ", " many.dropLast ++ ", and " ++ many.getLastD ""

def plural (n : Nat) : String := if n == 1 then "" else "s"

def BindingError.message : BindingError → String
  | tooMany callee least most given named =>
    let takes := if least == most then toString most else s!"from {least} to {most}"
    let takesPlural := if least == most then plural most else "s"
    let names :=
      if named == 0 then ""
      else s!" positional argument{plural given} (and {named} keyword-only argument{plural named})"
    let verb := if given == 1 && named == 0 then "was" else "were"
    s!"{callee}() takes {takes} positional argument{takesPlural} but {given}{names} {verb} given"
  | missing callee byName names =>
    let role := if byName then "keyword-only" else "positional"
    let list := enumerate names
    s!"{callee}() missing {names.length} required {role} argument{plural names.length}: {list}"
  | unexpected callee keyword => s!"{callee}() got an unexpected keyword argument '{keyword}'"
  | onlyPositional callee names =>
    let list := String.intercalate ", " names
    s!"{callee}() got some positional-only arguments passed as keyword arguments: '{list}'"
  | twice callee name => s!"{callee}() got multiple values for argument '{name}'"
  | takesNothing callee => s!"{callee}() takes no arguments"

/-- What a parameter holds during a call. -/
inductive Slot (α : Type) where
  | given (a : α)
  | absent
  | many (items : List α)
  | named (items : List (String × α))

/-- Arguments of a call by parameter, in the order of the signature. -/
abbrev Bindings (α : Type) := List (Parameter × Slot α)

namespace Signature

variable {α : Type}

def fillPositional : Signature → List α → Bindings α
  | [], _ => []
  | p :: ps, args =>
    if p.isPositional then
      match args with
      | a :: args => (p, .given a) :: fillPositional ps args
      | [] => (p, .absent) :: fillPositional ps []
    else
      match p.role with
      | .variadic => (p, .many args) :: fillPositional ps []
      | .keywords => (p, .named []) :: fillPositional ps []
      | _ => (p, .absent) :: fillPositional ps []

def isAbsent : Slot α → Bool
  | .absent => true
  | _ => false

def fillNamed (callee : String) (bound : Bindings α) (keyword : String) (a : α)
    (keywords : List String) : Except BindingError (Bindings α) :=
  match bound.find? fun b => b.1.takesName && b.1.name == keyword with
  | some (_, slot) =>
    if isAbsent slot then
      .ok (bound.map fun b =>
        if b.1.takesName && b.1.name == keyword then (b.1, .given a) else b)
    else .error (.twice callee keyword)
  | none =>
    if bound.any (·.1.role == .keywords) then
      .ok (bound.map fun b =>
        match b.1.role, b.2 with
        | .keywords, .named items => (b.1, .named (items ++ [(keyword, a)]))
        | _, _ => b)
    else
      let wrong := (bound.filter fun b =>
        b.1.role == .positionalOnly && keywords.contains b.1.name).map (·.1.name)
      if wrong.isEmpty then .error (.unexpected callee keyword)
      else .error (.onlyPositional callee wrong)

def fillAllNamed (callee : String) (keywords : List String) (bound : Bindings α) :
    List (String × α) → Except BindingError (Bindings α)
  | [] => .ok bound
  | (k, a) :: rest => do
    let bound ← fillNamed callee bound k a keywords
    fillAllNamed callee keywords bound rest

def missingNames (bound : Bindings α) (p : Parameter → Bool) : List String :=
  (bound.filter fun b => p b.1 && b.1.isRequired && isAbsent b.2).map (·.1.name)

def bind (s : Signature) (callee : String) (args : List α) (named : List (String × α)) :
    Except BindingError (Bindings α) := do
  let bound ← fillAllNamed callee (named.map (·.1)) (fillPositional s args) named
  let most := s.positional.length
  if most < args.length && !s.hasVariadic then
    let byName := (bound.filter fun b => b.1.role == .keywordOnly && !isAbsent b.2).length
    throw (.tooMany callee (s.positional.filter fun p => !p.optional).length most args.length byName)
  let missing := missingNames bound Parameter.isPositional
  if !missing.isEmpty then throw (.missing callee false missing)
  let missing := missingNames bound (·.role == .keywordOnly)
  if !missing.isEmpty then throw (.missing callee true missing)
  return bound

/-- Can the signature take that many positional arguments, if more may follow? -/
def takesPositional (s : Signature) (count : Nat) : Bool :=
  s.hasVariadic || count ≤ s.positional.length

end Signature

structure SourceLocation where
  module : String
  qualname : String
  line : Option Int
deriving DecidableEq, Repr

def SourceLocation.display (l : SourceLocation) : String :=
  l.module ++ "." ++ l.qualname ++ ((l.line.map fun n => ":" ++ toString n).getD "")

/-- That a callable takes the parameters which it reports is taken for granted. One that is called in another
way than it reports, as a class whose metaclass has a call of its own, is none of these. -/
structure Callable where
  id : Nat
  location : SourceLocation
  /-- The parameters that are reported, unless they cannot be known. -/
  signature : Option Signature
  /-- Can it be called at all? -/
  isCallable : Bool := true
deriving DecidableEq, Repr

end Rehearsal
