import Rehearsal.Value.Basic
import Rehearsal.Number.Shortest
import Rehearsal.Text.Quoted

/-! Texts of values: `shown` as a part of a larger value, where texts stand in quotes, and `display`
on its own, where a text is itself. -/

namespace Rehearsal.Value
set_option autoImplicit false
open Rehearsal.Text Rehearsal.Number

mutual

def shown : Value → String
  | null => "None"
  | bool b => if b then "True" else "False"
  | int n => toString n
  | float x => floatText x
  | text s => quoted s
  | list items => "[" ++ String.intercalate ", " (shownItems items) ++ "]"
  | dict entries => "\x7b" ++ String.intercalate ", " (shownEntries entries) ++ "\x7d"
  | object className _ => "<" ++ className ++ " object>"

def shownItems : List Value → List String
  | [] => []
  | v :: vs => shown v :: shownItems vs

def shownEntries : List (Value × Value) → List String
  | [] => []
  | (k, v) :: es => (shown k ++ ": " ++ shown v) :: shownEntries es

end

def display : Value → String
  | text s => s
  | v => shown v

@[simp] theorem display_text (s : String) : display (.text s) = s := rfl

end Rehearsal.Value
