import Rehearsal.Definition

/-! From the text of a step to a definition and its arguments. Of the definitions that take the whole
text those of highest priority count; what their groups captured is turned into values. -/

namespace Rehearsal
set_option autoImplicit false
open Rehearsal.Text Rehearsal.Number

abbrev Coercer := String → Except Fault Value

abbrev CoercionTable := String → Option Coercer

namespace Coercer

def isIntegerText (cs : List Char) : Bool :=
  let digits := (readSign cs).2
  !digits.isEmpty && digits.all isDigit

/-- An optional sign, digits around a point with at least one of them, and maybe an exponent. -/
def isDecimalText (cs : List Char) : Bool :=
  let cs := (readSign cs).2
  let whole := cs.takeWhile isDigit
  match cs.dropWhile isDigit with
  | '.' :: cs =>
    let fraction := cs.takeWhile isDigit
    (!whole.isEmpty || !fraction.isEmpty) &&
      match cs.dropWhile isDigit with
      | [] => true
      | c :: cs => (c == 'e' || c == 'E') && isIntegerText cs
  | _ => false

def integer (s : String) : Except Fault Value :=
  match readInt s with
  | .ok n => .ok (.int n)
  | .error e => .error (.number e)

def decimal (s : String) : Except Fault Value :=
  match readFloat s with
  | .ok x => .ok (.float x)
  | .error e => .error (.number e)

/-- Digits are an integer, any other text is read as a float. -/
def number (s : String) : Except Fault Value :=
  if isIntegerText s.toList then integer s else decimal s

/-- The text inside a pair of quotes, or the text itself. -/
def unquote (s : String) : String :=
  match s.toList with
  | [] => s
  | q :: cs =>
    if (q == '"' || q == '\'') && cs.getLast? == some q then String.ofList cs.dropLast else s

/-- Numbers become numbers, quotes are taken off, and other texts stay. -/
def automatic (s : String) : Except Fault Value :=
  let stripped := strip s
  if isIntegerText stripped.toList then integer stripped
  else if isDecimalText stripped.toList then decimal stripped
  else .ok (.text (unquote s))

end Coercer

namespace CoercionTable

def standard : CoercionTable
  | "str" => some fun s => .ok (.text s)
  | "int" => some Coercer.integer
  | "float" => some Coercer.decimal
  | "number" => some Coercer.number
  | "string" => some fun s => .ok (.text (Coercer.unquote s))
  | "auto" => some Coercer.automatic
  | _ => none

def none : CoercionTable := fun _ => .none

def withCoercer (t : CoercionTable) (name : String) (c : Coercer) : CoercionTable :=
  fun n => if n == name then some c else t n

/-- Faults of a coercer that are reported as its own: type and value errors, and those of classes that
extend them. -/
def isReported (f : Fault) : Bool := f.isA .typeError || f.isA .valueError

def typeName (types : List (Option String)) (index : Nat) (auto : Bool) : String :=
  ((types[index]?).join).getD (if auto then "auto" else "str")

/-- Turns one capture into a value; a group that took no part gives nothing. -/
def coerceOne (t : CoercionTable) (pattern type : String) : Option String → Except Fault Value
  | .none => .ok .null
  | some value =>
    match t type with
    | .none => .error (.unknownCoercer pattern value type)
    | some coercer =>
      match coercer value with
      | .ok v => .ok v
      | .error f => if isReported f then .error (.coercion pattern value type f) else .error f

def coerceFrom (t : CoercionTable) (pattern : String) (types : List (Option String))
    (auto : Bool) : (index : Nat) → List (Option String) → Except Fault (List Value)
  | _, [] => .ok []
  | index, v :: vs => do
    let a ← coerceOne t pattern (typeName types index auto) v
    let rest ← coerceFrom t pattern types auto (index + 1) vs
    return a :: rest

/-- Turns the captures of a definition into values, each by its own type. -/
def coerce (t : CoercionTable) (d : StepDefinition) (values : List (Option String)) (auto : Bool) :
    Except Fault (List Value) :=
  coerceFrom t d.source d.types auto 0 values

end CoercionTable

/-- What happens when several definitions of one priority match. -/
inductive Ambiguity where
  | error
  | first
deriving DecidableEq, Repr

structure Matcher where
  coercions : CoercionTable
  ambiguity : Ambiguity
  autoCoerce : Bool

def Matcher.standard : Matcher := ⟨CoercionTable.standard, .error, true⟩

/-- A definition that takes the whole text, with its place and what its groups captured. -/
structure Candidate where
  order : Nat
  definition : StepDefinition
  groups : List (Option String)

/-- The definition chosen for a step, with its arguments. -/
structure StepMatch where
  order : Nat
  definition : StepDefinition
  args : List Value

/-- The result of matching. `tied` lists the patterns of a tie that was settled by order. -/
structure Matched where
  tied : List String
  result : Except Fault (Option StepMatch)

namespace Matcher

def candidatesFrom (text : String) : Nat → List StepDefinition → List Candidate
  | _, [] => []
  | order, d :: ds =>
    match d.pattern.fullMatch? text with
    | some groups => ⟨order, d, groups⟩ :: candidatesFrom text (order + 1) ds
    | none => candidatesFrom text (order + 1) ds

def candidates (text : String) (definitions : List StepDefinition) : List Candidate :=
  candidatesFrom text 0 definitions

def topPriority (c : Candidate) (cs : List Candidate) : Int :=
  cs.foldl (fun p c => max p c.definition.priority) c.definition.priority

def best : List Candidate → List Candidate
  | [] => []
  | c :: cs =>
    let top := topPriority c cs
    (c :: cs).filter fun c => c.definition.priority == top

def choose (m : Matcher) (c : Candidate) : Except Fault (Option StepMatch) := do
  let args ← m.coercions.coerce c.definition c.groups m.autoCoerce
  return some ⟨c.order, c.definition, args⟩

def matchText (m : Matcher) (text : String) (definitions : List StepDefinition) : Matched :=
  match best (candidates text definitions) with
  | [] => ⟨[], .ok none⟩
  | [c] => ⟨[], m.choose c⟩
  | c :: cs =>
    let patterns := (c :: cs).map (·.definition.source)
    match m.ambiguity with
    | .error => ⟨[], .error (.ambiguousMatch text patterns)⟩
    | .first => ⟨patterns, m.choose c⟩

end Matcher
end Rehearsal
