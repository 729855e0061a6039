import Rehearsal.Json.Basic
import Rehearsal.Number.Reading

/-! Reading JSON text. Every reader takes the characters that are left and hands back what it read
with the characters after it; nesting is bounded by the length of the text. -/

namespace Rehearsal.Json
set_option autoImplicit false
open Rehearsal.Number Rehearsal.Text

def isSpace (c : Char) : Bool := c == ' ' || c == '\n' || c == '\r' || c == '\t'

def skipSpace (cs : List Char) : List Char := cs.dropWhile isSpace

def hexValue? (c : Char) : Option Nat :=
  if '0' ≤ c && c ≤ '9' then some (c.toNat - 48)
  else if 'a' ≤ c && c ≤ 'f' then some (c.toNat - 87)
  else if 'A' ≤ c && c ≤ 'F' then some (c.toNat - 55)
  else none

def hex4? (cs : List Char) : Option (Nat × List Char) :=
  match cs with
  | a :: b :: c :: d :: rest => do
    let a ← hexValue? a
    let b ← hexValue? b
    let c ← hexValue? c
    let d ← hexValue? d
    return (((a * 16 + b) * 16 + c) * 16 + d, rest)
  | _ => none

def simpleEscape? : Char → Option Char
  | '"' => some '"'
  | '\\' => some '\\'
  | '/' => some '/'
  | 'b' => some (Char.ofNat 8)
  | 'f' => some (Char.ofNat 12)
  | 'n' => some '\n'
  | 'r' => some '\r'
  | 't' => some '\t'
  | _ => none

/-- An escaped code point after `\u`: two surrogates in a row are one. -/
def codePoint? (cs : List Char) : Option (Char × List Char) := do
  let (n, rest) ← hex4? cs
  match rest with
  | '\\' :: 'u' :: rest' =>
    if 0xD800 ≤ n && n < 0xDC00 then
      match hex4? rest' with
      | some (m, rest') =>
        if 0xDC00 ≤ m && m < 0xE000 then
          return (Char.ofNat (0x10000 + (n - 0xD800) * 0x400 + (m - 0xDC00)), rest')
        else return (charOfCode n, rest)
      | none => none
    else return (charOfCode n, rest)
  | _ => return (charOfCode n, rest)

/-- The characters of a string up to its closing quote. -/
def readString (fuel : Nat) (acc : List Char) (cs : List Char) : Option (String × List Char) :=
  match fuel, cs with
  | _, '"' :: rest => some (String.ofList acc.reverse, rest)
  | fuel + 1, '\\' :: 'u' :: rest =>
    match codePoint? rest with
    | some (c, rest) => readString fuel (c :: acc) rest
    | none => none
  | fuel + 1, '\\' :: c :: rest =>
    match simpleEscape? c with
    | some c => readString fuel (c :: acc) rest
    | none => none
  | fuel + 1, c :: rest => readString fuel (c :: acc) rest
  | _, _ => none

def isNumberChar (c : Char) : Bool :=
  c.isDigit || c == '-' || c == '+' || c == '.' || c == 'e' || c == 'E'

def readNumber (cs : List Char) : Option (Json × List Char) :=
  let token := cs.takeWhile isNumberChar
  let rest := cs.dropWhile isNumberChar
  if token.any fun c => c == '.' || c == 'e' || c == 'E' then
    (readFloat? token).map fun x => (.float x, rest)
  else
    let (negative, digits) := readSign token
    match readDigits? digits with
    | some (ds, []) => some (.int (applySign negative (digitsValue ds)), rest)
    | _ => none

mutual

def readValue (fuel : Nat) (cs : List Char) : Option (Json × List Char) :=
  match fuel with
  | 0 => none
  | fuel + 1 =>
    match skipSpace cs with
    | 'n' :: 'u' :: 'l' :: 'l' :: rest => some (.null, rest)
    | 't' :: 'r' :: 'u' :: 'e' :: rest => some (.bool true, rest)
    | 'f' :: 'a' :: 'l' :: 's' :: 'e' :: rest => some (.bool false, rest)
    | '"' :: rest => (readString rest.length [] rest).map fun (s, rest) => (.str s, rest)
    | '[' :: rest =>
      match skipSpace rest with
      | ']' :: rest => some (.arr [], rest)
      | rest => readItems fuel [] rest
    | '\x7b' :: rest =>
      match skipSpace rest with
      | '\x7d' :: rest => some (.obj [], rest)
      | rest => readFields fuel [] rest
    | cs => readNumber cs

def readItems (fuel : Nat) (acc : List Json) (cs : List Char) : Option (Json × List Char) :=
  match fuel with
  | 0 => none
  | fuel + 1 =>
    match readValue fuel cs with
    | none => none
    | some (j, rest) =>
      match skipSpace rest with
      | ',' :: rest => readItems fuel (j :: acc) rest
      | ']' :: rest => some (.arr (j :: acc).reverse, rest)
      | _ => none

def readFields (fuel : Nat) (acc : List (String × Json)) (cs : List Char) :
    Option (Json × List Char) :=
  match fuel with
  | 0 => none
  | fuel + 1 =>
    match skipSpace cs with
    | '"' :: rest =>
      match readString rest.length [] rest with
      | none => none
      | some (k, rest) =>
        match skipSpace rest with
        | ':' :: rest =>
          match readValue fuel rest with
          | none => none
          | some (j, rest) =>
            match skipSpace rest with
            | ',' :: rest => readFields fuel ((k, j) :: acc) rest
            | '\x7d' :: rest => some (.obj ((k, j) :: acc).reverse, rest)
            | _ => none
        | _ => none
    | _ => none

end

def parse? (s : String) : Option Json :=
  let cs := s.toList
  match readValue (2 * cs.length + 2) cs with
  | some (j, rest) => if (skipSpace rest).isEmpty then some j else none
  | none => none

end Rehearsal.Json
