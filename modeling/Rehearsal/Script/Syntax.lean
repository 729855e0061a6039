import Rehearsal.Context.Class

/-! Scripts: step code, context classes and modules given as data, so that a run can be rehearsed
without code of its own. -/

namespace Rehearsal.Script
set_option autoImplicit false

/-- What a condition on an action looks at. -/
inductive Aspect where
  /-- The number of the call, counted from one. -/
  | call
  /-- The position of the step in its scenario. -/
  | index
  | scenario
  | feature
  /-- The status in the scope. -/
  | result
deriving DecidableEq, Repr

/-- Where an action takes its value from. -/
inductive Operand where
  | literal (v : Value)
  | parameter (name : String)

/-- What is asked of a context by its capabilities. -/
inductive Wanted where
  | contextClass (path : String)
  | loose (v : Value)

/-- Another context that an action turns to. -/
inductive Target where
  | main
  | sub (aliasName : String)
  | capable (wanted : Wanted)

mutual

/-- An action with the conditions under which it is done. -/
inductive Action where
  | mk (only : List (Aspect × Value)) (deed : Deed)

inductive Deed where
  | log (text : Value)
  | who
  | args
  | scope
  | set (key : String) (operand : Operand)
  | append (key : String) (operand : Operand)
  | get (key : String)
  | expect (key : String) (operand : Operand) (message : Value)
  | raise (kind : String) (message : Option Value)
  /-- Requests an abort; without a reason of its own the usual one is given. -/
  | abort (reason : Option Value)
  | give (operand : Operand)
  | giveNew (classPath : String)
  | visit (target : Target) (body : List Action)
  /-- Does nothing. -/
  | idle

end

inductive Decorator where
  | step (keyword : String) (pattern priority types : Value)
  /-- A hook decorator that is applied without being called. -/
  | bareHook (phase : String)
  | hook (phase : String) (tags : Value)
  | context (capabilities : Value)

/-- What stands in the place of a function. -/
inductive Shape where
  | function
  /-- An object that calls the function. -/
  | callableObject
  | builtin (name : String)
  | plain (v : Value)

structure FunctionSpec where
  name : String
  module : Option String
  qualname : Option String
  line : Int
  /-- The parameters, where they are given. -/
  params : Option Signature
  body : List Action
  decorators : List Decorator
  wraps : Option FunctionSpec
  shape : Shape

/-- A function without anything that could be left out. -/
def FunctionSpec.named (name : String) : FunctionSpec :=
  ⟨name, none, none, 1, none, [], [], none, .function⟩

mutual

inductive ClassSpec where
  | mk (name : String) (bases : List String) (init : Option FunctionSpec)
    (members : List MemberSpec) (decorators : List Decorator)

inductive MemberSpec where
  | function (f : FunctionSpec) (wrapping : Wrapping) (outer : List Decorator)
  | nested (name : String) (c : ClassSpec)

end

inductive ItemSpec where
  | classItem (c : ClassSpec)
  | function (f : FunctionSpec)
  /-- What another module shows. -/
  | reference (path : String)
  | value (v : Value)

/-- Items with the names that they are given instead of their own. -/
structure ModuleSpec where
  name : String
  items : List (Option String × ItemSpec)

end Rehearsal.Script
