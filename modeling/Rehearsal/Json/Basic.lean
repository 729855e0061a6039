/-! JSON values. A number written with a point or an exponent is a float, any other an integer of
any size; the fields of an object keep their order. -/

namespace Rehearsal
set_option autoImplicit false

inductive Json where
  | null
  | bool (b : Bool)
  | int (n : Int)
  | float (x : Float)
  | str (s : String)
  | arr (items : List Json)
  | obj (fields : List (String × Json))
deriving Inhabited

namespace Json

/-- The field of that name; of several the last one counts. -/
def field? (name : String) : Json → Option Json
  | .obj fields => (fields.reverse.find? (·.1 == name)).map (·.2)
  | _ => none

def items : Json → List Json
  | .arr xs => xs
  | _ => []

def fields : Json → List (String × Json)
  | .obj fs => fs
  | _ => []

def str? : Json → Option String
  | .str s => some s
  | _ => none

def int? : Json → Option Int
  | .int n => some n
  | _ => none

def bool? : Json → Option Bool
  | .bool b => some b
  | _ => none

def isNull : Json → Bool
  | .null => true
  | _ => false

def ofOption {α : Type} (f : α → Json) : Option α → Json
  | some a => f a
  | none => .null

def ofList {α : Type} (f : α → Json) (xs : List α) : Json := .arr (xs.map f)

def strs (xs : List String) : Json := ofList .str xs

end Json
end Rehearsal
