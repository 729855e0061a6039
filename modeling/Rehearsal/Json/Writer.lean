import Rehearsal.Json.Basic
import Rehearsal.Number.Shortest
import Rehearsal.Text.Quoted

/-! JSON text. A `Style` fixes the separators and whether characters outside ASCII are escaped. -/

namespace Rehearsal.Json
set_option autoImplicit false
open Rehearsal.Text Rehearsal.Number

structure Style where
  itemSeparator : String
  keySeparator : String
  asciiOnly : Bool

def Style.compact : Style := ⟨",", ":", false⟩

/-- A blank after each separator, everything outside ASCII escaped. -/
def Style.spaced : Style := ⟨", ", ": ", true⟩

def unitEscape (n : Nat) : List Char := '\\' :: 'u' :: hexDigits 4 n

/-- The escapes of the UTF-16 units of a code point. -/
def unitEscapes (n : Nat) : List Char :=
  if n < 0x10000 then unitEscape n
  else unitEscape (0xD800 + (n - 0x10000) / 0x400) ++ unitEscape (0xDC00 + (n - 0x10000) % 0x400)

def escapeChar (asciiOnly : Bool) (c : Char) : List Char :=
  if c == '"' then ['\\', '"']
  else if c == '\\' then ['\\', '\\']
  else if c == '\n' then ['\\', 'n']
  else if c == '\r' then ['\\', 'r']
  else if c == '\t' then ['\\', 't']
  else if c.toNat == 8 then ['\\', 'b']
  else if c.toNat == 12 then ['\\', 'f']
  else if c.toNat < 32 then unitEscape c.toNat
  else if asciiOnly && 126 < c.toNat then unitEscapes (codeOf c)
  else [c]

def quote (style : Style) (s : String) : String :=
  "\"" ++ String.ofList (s.toList.flatMap (escapeChar style.asciiOnly)) ++ "\""

/-- Floats are written as elsewhere, the three that are no numbers by name. -/
def numberLayout : Layout := { Layout.plain with infinity := "Infinity", nan := "NaN" }

mutual

def write (style : Style) : Json → String
  | .null => "null"
  | .bool b => if b then "true" else "false"
  | .int n => toString n
  | .float x => numberLayout.float x
  | .str s => quote style s
  | .arr items => "[" ++ style.itemSeparator.intercalate (writeItems style items) ++ "]"
  | .obj fields => "\x7b" ++ style.itemSeparator.intercalate (writeFields style fields) ++ "\x7d"

def writeItems (style : Style) : List Json → List String
  | [] => []
  | j :: js => write style j :: writeItems style js

def writeFields (style : Style) : List (String × Json) → List String
  | [] => []
  | (k, j) :: fs => (quote style k ++ style.keySeparator ++ write style j) :: writeFields style fs

end

/-- The text on one line that reports and logs use. -/
def line (j : Json) : String := write .compact j

/-- The same line where nothing but UTF-8 can be sent: surrogates are escaped. -/
def sentLine (j : Json) : String :=
  let text := j.line
  if hasSurrogate text then
    String.ofList (text.toList.flatMap fun c => if isStandIn c then unitEscape (codeOf c) else [c])
  else text

end Rehearsal.Json
