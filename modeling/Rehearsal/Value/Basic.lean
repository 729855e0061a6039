import Rehearsal.Json.Basic

/-! Values that pass through a run: constructor parameters, captured arguments, tables and
docstrings, attributes of contexts. Steps are written against values of any kind, so there is one
type for all of them. -/

namespace Rehearsal
set_option autoImplicit false

inductive Value where
  | null
  | bool (b : Bool)
  | int (n : Int)
  | float (x : Float)
  | text (s : String)
  | list (items : List Value)
  | dict (entries : List (Value × Value))
  /-- Something known by its class only. Two objects are the same when their ids are. -/
  | object (className : String) (id : Nat)
deriving Inhabited

namespace Value

def kindName : Value → String
  | null => "NoneType"
  | bool _ => "bool"
  | int _ => "int"
  | float _ => "float"
  | text _ => "str"
  | list _ => "list"
  | dict _ => "dict"
  | object className _ => className

def isNull : Value → Bool
  | null => true
  | _ => false

def text? : Value → Option String
  | text s => some s
  | _ => none

def ofText? (s : Option String) : Value := (s.map text).getD null

mutual

def ofJson : Json → Value
  | .null => null
  | .bool b => bool b
  | .int n => int n
  | .float x => float x
  | .str s => text s
  | .arr items => list (ofItems items)
  | .obj fields => dict (ofFields fields)

def ofItems : List Json → List Value
  | [] => []
  | j :: js => ofJson j :: ofItems js

def ofFields : List (String × Json) → List (Value × Value)
  | [] => []
  | (k, j) :: fs => (text k, ofJson j) :: ofFields fs

end

/-- Is a value taken for true where a choice is made? Zero, nothing and what is empty are not. -/
def truthy : Value → Bool
  | null => false
  | bool b => b
  | int n => n != 0
  | float x => x != 0
  | text s => !s.isEmpty
  | list items => !items.isEmpty
  | dict entries => !entries.isEmpty
  | object .. => true

/-- Values that a set or a key cannot hold. -/
def hashable : Value → Bool
  | list _ | dict _ => false
  | _ => true

end Value
end Rehearsal
