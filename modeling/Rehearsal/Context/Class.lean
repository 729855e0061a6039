import Rehearsal.Mark

/-! Classes of contexts, as far as discovery looks at them: the members of a class and of the
classes that it extends, with the marks on them. -/

namespace Rehearsal
set_option autoImplicit false

/-- How a member of a class is reached. -/
inductive Wrapping where
  /-- Through an instance, which it receives first. -/
  | plain
  /-- Without an instance. -/
  | static
  /-- Without an instance; it receives the class first. -/
  | ofClass
deriving DecidableEq, Repr

structure Member where
  name : String
  wrapping : Wrapping
  /-- Is what is wrapped a function, and not an object of another kind? -/
  isFunction : Bool
  /-- What is wrapped. -/
  inner : Callable
  /-- What a caller gets from the class under the member's name. -/
  reached : Callable
  /-- The marks on what is wrapped. -/
  innerMarks : Marks
  /-- The marks on the wrapping. -/
  outerMarks : Marks

namespace Member

def isStatic (m : Member) : Bool := m.wrapping != .plain

def isMethod (m : Member) : Bool := !m.isStatic && m.isFunction

def marks (m : Member) : Marks := m.innerMarks.orElse m.outerMarks

end Member

/-- The members of one class, in the order of declaration. -/
abbrev Layer := List Member

/-- A member put among others: one of the same name gives it its place. -/
def Layer.put (members : Layer) (m : Member) : Layer :=
  if members.any (·.name == m.name) then
    members.map fun old => if old.name == m.name then m else old
  else members ++ [m]

def Layer.merge (members layer : Layer) : Layer := layer.foldl Layer.put members

structure ContextClass where
  id : Nat
  name : String
  qualname : String
  /-- The layers of the class and of those that it extends, the most basic first. -/
  layers : List Layer

/-- The members that an instance shows, an overriding one in the place of the overridden. -/
def ContextClass.members (c : ContextClass) : Layer := c.layers.foldl Layer.merge []

end Rehearsal
