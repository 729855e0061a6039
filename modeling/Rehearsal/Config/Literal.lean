import Rehearsal.Config.Checked
import Rehearsal.Number.Shortest
import Rehearsal.Text.Blank
import Rehearsal.Value.Display

/-! Texts, numbers, flags and choices of a configuration. Numbers and flags are read with some
latitude: a text may spell them, a float with no fraction is an integer. -/

namespace Rehearsal.Config
set_option autoImplicit false
open Rehearsal.Text Rehearsal.Number

def readText : Value → Checked String
  | .text s => .good s
  | _ => .refuse "Input should be a valid string"

/-! ### Integers -/

/-- Why something is no integer. -/
inductive IntegerFlaw where
  | wrongKind
  | unreadable
  | fractional
  | notFinite
  | tooLong
deriving DecidableEq, Repr

def IntegerFlaw.message : IntegerFlaw → String
  | wrongKind => "Input should be a valid integer"
  | unreadable => "Input should be a valid integer, unable to parse string as an integer"
  | fractional => "Input should be a valid integer, got a number with a fractional part"
  | notFinite => "Input should be a finite number"
  | tooLong => "Unable to parse input string as an integer, exceeded maximum size"

/-- The most characters that a spelled integer may have. -/
def spelledLimit : Nat := 4300

def asciiDigits (cs : List Char) : List Char := cs.takeWhile Char.isDigit

def decimalValue (ds : List Char) : Nat := ds.foldl (fun n d => 10 * n + (d.toNat - 48)) 0

/-- Is it a row of digits without a zero in front, or a single zero? -/
def isPlainNumeral (cs : List Char) : Bool :=
  !cs.isEmpty && cs.all Char.isDigit && (cs == ['0'] || cs.head? != some '0')

/-- The integer that plain digits spell, with a minus in front or without. -/
def plainInteger? (cs : List Char) : Option Int :=
  let (negative, ds) :=
    match cs with
    | '-' :: ds => (true, ds)
    | ds => (false, ds)
  if isPlainNumeral ds && cs.length ≤ spelledLimit then
    some (if negative then -(decimalValue ds : Int) else decimalValue ds)
  else none

/-- Takes a plus off, unless a minus follows it. -/
def withoutPlus? : List Char → Option (List Char)
  | '+' :: '-' :: _ => none
  | '+' :: cs => some cs
  | cs => some cs

/-- What follows zeros and underscores; `last` is the one read last, which stays before a point and
at the end. -/
def afterZeros? : (last : Char) → List Char → Option (List Char)
  | last, [] => some [last]
  | last, c :: cs =>
    if c == '0' || c == '_' then afterZeros? c cs
    else if c == '.' then some (last :: c :: cs)
    else if c.isDigit then some (c :: cs)
    else none

def withoutZeros? : List Char → Option (List Char)
  | [] => none
  | c :: cs =>
    if c == '0' then afterZeros? c cs
    else if c.isDigit || c == '-' then some (c :: cs)
    else none

def withoutFraction (cs : List Char) : List Char :=
  match cs.dropWhile (· != '.') with
  | '.' :: fraction => if fraction.all (· == '0') then cs.takeWhile (· != '.') else cs
  | _ => cs

def singleUnderscores : (afterOther : Bool) → List Char → Bool
  | afterOther, [] => afterOther
  | afterOther, c :: cs =>
    if c == '_' then afterOther && singleUnderscores false cs else singleUnderscores true cs

def withoutUnderscores (cs : List Char) : List Char :=
  if singleUnderscores false cs then cs.filter (· != '_') else cs

def spelledInteger? (cs : List Char) : Option Int := do
  let cs ← withoutPlus? (trimSpacing cs)
  let cs ← withoutZeros? cs
  plainInteger? (withoutUnderscores (withoutFraction cs))

/-- Does a text open with more digits than an integer may have? -/
def opensTooLong (cs : List Char) : Bool :=
  let (sign, ds) :=
    match cs with
    | '-' :: ds => (1, ds)
    | ds => (0, ds)
  ds.head? != some '0' && spelledLimit < sign + (asciiDigits ds).length

/-- The number of machine words that are not negative. -/
def wordBound : Nat := 9223372036854775808

def isWord (n : Int) : Bool := -(wordBound : Int) ≤ n && n < wordBound

def floatInteger (x : Float) : Except IntegerFlaw Int :=
  if x.isNaN || x.isInf then .error .notFinite
  else
    let b := binaryOf x
    let (num, den) := ratio b.significand b.exponent 0
    if num % den != 0 then .error .fractional
    else if wordBound ≤ num / den then .error .tooLong
    else .ok (if signBit x then -((num / den : Nat) : Int) else ((num / den : Nat) : Int))

def readInteger : Value → Except IntegerFlaw Int
  | .int n => .ok n
  | .bool b => .ok (if b then 1 else 0)
  | .float x => floatInteger x
  | .text s =>
    if opensTooLong s.toList then .error .tooLong
    else
      match spelledInteger? s.toList with
      | some n => .ok n
      | none => .error .unreadable
  | _ => .error .wrongKind

/-- Numbers of things of which there is at least one. -/
abbrev Count := { n : Nat // 0 < n }

def readCount (v : Value) : Checked Count :=
  match readInteger v with
  | .error flaw => .refuse flaw.message
  | .ok n =>
    if h : 0 < n.toNat then .good ⟨n.toNat, h⟩
    else .refuse "Input should be greater than or equal to 1"

/-! ### Flags -/

inductive FlagFlaw where
  | wrongKind
  | unreadable
deriving DecidableEq, Repr

def FlagFlaw.message : FlagFlaw → String
  | wrongKind => "Input should be a valid boolean"
  | unreadable => "Input should be a valid boolean, unable to interpret input"

def trueWords : List String := ["1", "t", "y", "on", "yes", "true"]

def falseWords : List String := ["0", "f", "n", "no", "off", "false"]

/-- The flag that a word stands for; capitals do not matter. -/
def flagOfWord (s : String) : Except FlagFlaw Bool :=
  let word := String.ofList (s.toList.map Char.toLower)
  if trueWords.contains word then .ok true
  else if falseWords.contains word then .ok false
  else .error .unreadable

def flagOfInteger (n : Int) : Except FlagFlaw Bool :=
  if n == 1 then .ok true else if n == 0 then .ok false else .error .unreadable

def readFlagValue : Value → Except FlagFlaw Bool
  | .bool b => .ok b
  | .text s => flagOfWord s
  | .int n => if isWord n then flagOfInteger n else .error .wrongKind
  | .float x =>
    match floatInteger x with
    | .ok n => flagOfInteger n
    | .error _ => .error .wrongKind
  | _ => .error .wrongKind

def readFlag (v : Value) : Checked Bool :=
  match readFlagValue v with
  | .ok b => .good b
  | .error flaw => .refuse flaw.message

/-! ### Choices -/

/-- The names that a choice can be made by, with what they stand for. -/
abbrev Choices (α : Type) := List (String × α)

def Choices.listed : List String → String
  | [] => ""
  | [a] => a
  | [a, b] => a ++ " or " ++ b
  | a :: rest => a ++ ", " ++ listed rest

def readChoice {α : Type} (choices : Choices α) (v : Value) : Checked α :=
  match v.text?.bind fun s => choices.find? (·.1 == s) with
  | some c => .good c.2
  | none =>
    .refuse ("Input should be " ++ Choices.listed (choices.map fun c => "'" ++ c.1 ++ "'"))

def Choices.nameOf {α : Type} [DecidableEq α] (choices : Choices α) (a : α) : String :=
  ((choices.find? (·.2 = a)).map (·.1)).getD ""

end Rehearsal.Config
