import Rehearsal.Yaml.Time

/-! What plain scalars stand for: a text that looks like a flag, a number, a moment or nothing is taken
for one. -/

namespace Rehearsal.Yaml
set_option autoImplicit false

/-- The tag of a kind that every reader knows. -/
def knownTag (kind : String) : String := "tag:yaml.org,2002:" ++ kind

def parts (separator : Char) : List Char → List (List Char)
  | [] => [[]]
  | c :: cs =>
    if c == separator then [] :: parts separator cs
    else
      match parts separator cs with
      | p :: ps => (c :: p) :: ps
      | [] => [[c]]

def withoutSign : List Char → List Char
  | '-' :: cs | '+' :: cs => cs
  | cs => cs

def isDigitOrBar (c : Char) : Bool := c.isDigit || c == '_'

def isNumeral : List Char → Bool
  | [] => false
  | c :: cs => c.isDigit && cs.all isDigitOrBar

/-- A number below sixty, of one digit or two. -/
def isSixtieth : List Char → Bool
  | [c] => c.isDigit
  | [c, d] => '0' ≤ c && c ≤ '5' && d.isDigit
  | _ => false

def isHexOrBar (c : Char) : Bool :=
  isDigitOrBar c || ('a' ≤ c && c ≤ 'f') || ('A' ≤ c && c ≤ 'F')

def looksInteger (cs : List Char) : Bool :=
  match withoutSign cs with
  | [] => false
  | ['0'] => true
  | '0' :: 'b' :: ds => !ds.isEmpty && ds.all fun c => c == '0' || c == '1' || c == '_'
  | '0' :: 'x' :: ds => !ds.isEmpty && ds.all isHexOrBar
  | '0' :: ds => ds.all fun c => ('0' ≤ c && c ≤ '7') || c == '_'
  | ds =>
    match parts ':' ds with
    | [] => false
    | whole :: sixtieths => isNumeral whole && sixtieths.all isSixtieth

def isExponent : List Char → Bool
  | [] => true
  | e :: sign :: ds =>
    (e == 'e' || e == 'E') && (sign == '-' || sign == '+') && !ds.isEmpty && ds.all Char.isDigit
  | _ => false

/-- Digits and bars, and then nothing or an exponent. -/
def isFraction (cs : List Char) : Bool := isExponent (cs.dropWhile isDigitOrBar)

def infinityWords : List String := [".inf", ".Inf", ".INF"]

def nanWords : List String := [".nan", ".NaN", ".NAN"]

def looksFloat (cs : List Char) : Bool :=
  let unsigned := withoutSign cs
  let whole := unsigned.takeWhile (· != '.')
  match unsigned.dropWhile (· != '.') with
  | [] => false
  | _ :: fraction =>
    if whole.isEmpty then
      infinityWords.contains (String.ofList unsigned) || nanWords.contains (String.ofList cs) ||
        (cs == unsigned && (fraction.head?.map Char.isDigit).getD false && isFraction fraction)
    else
      match parts ':' whole with
      | [ds] => isNumeral ds && isFraction fraction
      | ds :: sixtieths =>
        isNumeral ds && sixtieths.all isSixtieth && fraction.all isDigitOrBar
      | [] => false

def looksMoment (s : String) : Bool :=
  match Moment.read? s with
  | some m => m.padded || m.clock.isSome
  | none => false

def trueWords : List String := ["yes", "Yes", "YES", "true", "True", "TRUE", "on", "On", "ON"]

def falseWords : List String := ["no", "No", "NO", "false", "False", "FALSE", "off", "Off", "OFF"]

def nullWords : List String := ["", "~", "null", "Null", "NULL"]

def plainKind (s : String) : String :=
  if trueWords.contains s || falseWords.contains s then "bool"
  else if looksFloat s.toList then "float"
  else if looksInteger s.toList then "int"
  else if s == "<<" then "merge"
  else if nullWords.contains s then "null"
  else if looksMoment s then "timestamp"
  else if s == "=" then "value"
  else if ["!", "&", "*"].contains s then "yaml"
  else "str"

end Rehearsal.Yaml
