import Rehearsal.Config.Error

/-! Checks that collect every problem. Two parts are checked independently, and what is wrong with the
first is told before what is wrong with the second. -/

namespace Rehearsal
set_option autoImplicit false

/-- Something read from a configuration, or everything that is wrong with it. -/
inductive Checked (α : Type) where
  | good (a : α)
  | bad (problems : List Problem)

namespace Checked

variable {α β : Type}

def problems : Checked α → List Problem
  | good _ => []
  | bad ps => ps

def map (f : α → β) : Checked α → Checked β
  | good a => good (f a)
  | bad ps => bad ps

/-- Checks one part and then, whatever came of it, another. -/
def apply (f : Checked (α → β)) (x : Unit → Checked α) : Checked β :=
  match f, x () with
  | good f, good a => good (f a)
  | good _, bad qs => bad qs
  | bad ps, x => bad (ps ++ x.problems)

instance : Applicative Checked where
  map := map
  pure := good
  seq := apply

def refuse (text : String) : Checked α := bad [⟨[], text⟩]

/-- The part stands at a place of a larger one. -/
def under (place : String) : Checked α → Checked α
  | good a => good a
  | bad ps => bad (ps.map fun p => { p with place := place :: p.place })

/-- A judgement on a part that is good so far. -/
def verify (flaw : α → Option String) : Checked α → Checked α
  | good a =>
    match flaw a with
    | some text => refuse text
    | none => good a
  | bad ps => bad ps

/-- The part beside others that may have problems of their own. -/
def beside (ps : List Problem) : Checked α → Checked α
  | good a => if ps.isEmpty then good a else bad ps
  | bad qs => bad (qs ++ ps)

def toExcept : Checked α → Except ConfigError α
  | good a => .ok a
  | bad ps => .error (.invalid ps)

end Checked
end Rehearsal
