import Rehearsal.Text.Blank
import Rehearsal.Text.Word
import Rehearsal.Text.Quoted
import Rehearsal.Number.Shortest

/-! Reading numbers out of text. Spacing around a number is ignored, digits of every script
count, and one underscore may stand between two digits. -/

namespace Rehearsal.Number
set_option autoImplicit false
open Rehearsal.Text

/-- The most digits that an integer text may have. -/
def digitLimit : Nat := 4300

/-- Why a text is no number. -/
inductive NumberError where
  | notInteger (text : String)
  | tooLong (digits : Nat)
  | notFloat (text : String)
deriving DecidableEq, Repr

/-- A rejected integer text is shown up to this many characters. -/
def shownLimit : Nat := 200

def NumberError.message : NumberError → String
  | .notInteger text =>
    "invalid literal for int() with base 10: " ++
      String.ofList ((quotedChars text.toList).take shownLimit)
  | .tooLong digits =>
    "Exceeds the limit (" ++ toString digitLimit ++
      " digits) for integer string conversion: value has " ++ toString digits ++
      " digits; use sys.set_int_max_str_digits() to increase the limit"
  | .notFloat text => "could not convert string to float: " ++ quoted text

/-- The value of decimal digits, the first one first. -/
def digitsValue (ds : List Nat) : Nat := ds.foldl (fun n d => 10 * n + d) 0

theorem digitsValue_append_singleton (ds : List Nat) (d : Nat) :
    digitsValue (ds ++ [d]) = 10 * digitsValue ds + d := by
  simp [digitsValue]

/-- The longest prefix of digits and underscores, with the rest of the text. -/
def splitDigits (cs : List Char) : List Char × List Char :=
  (cs.takeWhile fun c => isDigit c || c == '_', cs.dropWhile fun c => isDigit c || c == '_')

def wellSpaced : (afterDigit : Bool) → List Char → Bool
  | afterDigit, [] => afterDigit
  | afterDigit, c :: cs => if c == '_' then afterDigit && wellSpaced false cs else wellSpaced true cs

def digitsOf (cs : List Char) : List Nat := cs.filterMap digitValue?

/-- The digits of a text that starts with a well-spaced digit run, and the rest. -/
def readDigits? (cs : List Char) : Option (List Nat × List Char) :=
  let (run, rest) := splitDigits cs
  if wellSpaced false run then some (digitsOf run, rest) else none

/-- Takes a leading sign off: is it a minus? -/
def readSign : List Char → Bool × List Char
  | '-' :: cs => (true, cs)
  | '+' :: cs => (false, cs)
  | cs => (false, cs)

def applySign (negative : Bool) (n : Nat) : Int := if negative then -(n : Int) else n

/-- The integer that a text spells. Length is judged before what follows the digits. -/
def readInt (text : String) : Except NumberError Int :=
  let (negative, cs) := readSign (trimSpacing text.toList)
  match readDigits? cs with
  | none => .error (.notInteger text)
  | some (ds, rest) =>
    if digitLimit < ds.length then .error (.tooLong ds.length)
    else if rest.isEmpty then .ok (applySign negative (digitsValue ds))
    else .error (.notInteger text)

/-- The float nearest to `n · 10^e`; far beyond the range of floats the size alone decides. -/
def scientific (n : Nat) (e : Int) : Float :=
  let size : Int := (Nat.toDigits 10 n).length
  if n == 0 then 0
  else if 400 < size + e then 1 / 0
  else if size + e < -400 then 0
  else Float.ofScientific n (e < 0) e.natAbs

/-- What stands between the sign and the exponent: whole and fractional digits. -/
def readMantissa? (cs : List Char) : Option (List Nat × List Nat × List Char) :=
  match cs with
  | '.' :: rest => (readDigits? rest).map fun (f, rest) => ([], f, rest)
  | _ => do
    let (w, rest) ← readDigits? cs
    match rest with
    | '.' :: rest =>
      if (splitDigits rest).1.isEmpty then return (w, [], rest)
      else
        let (f, rest) ← readDigits? rest
        return (w, f, rest)
    | _ => return (w, [], rest)

def readExponent? (cs : List Char) : Option Int :=
  match cs with
  | [] => some 0
  | c :: cs =>
    if c == 'e' || c == 'E' then
      let (negative, cs) := readSign cs
      match readDigits? cs with
      | some (ds, []) => some (applySign negative (digitsValue ds))
      | _ => none
    else none

def asciiLower (cs : List Char) : String := String.ofList (cs.map Char.toLower)

def readFloat? (cs : List Char) : Option Float :=
  let (negative, cs) := readSign cs
  let signed (x : Float) : Float := if negative then -x else x
  let word := asciiLower cs
  if word == "inf" || word == "infinity" then some (signed (1 / 0))
  else if word == "nan" then some (signed (0 / 0))
  else do
    let (w, f, rest) ← readMantissa? cs
    let e ← readExponent? rest
    return signed (scientific (digitsValue (w ++ f)) (e - (f.length : Int)))

def readFloat (text : String) : Except NumberError Float :=
  match readFloat? (trimSpacing text.toList) with
  | some x => .ok x
  | none => .error (.notFloat text)

end Rehearsal.Number
