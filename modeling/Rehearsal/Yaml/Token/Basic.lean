import Rehearsal.Yaml.Scalar

/-! The tokens of a YAML text, and those of them that are written in a way of their own: names, tags
and directives. -/

namespace Rehearsal.Yaml
set_option autoImplicit false

/-- A tag as it is written: a handle and what follows it, or the whole tag. -/
structure TagName where
  handle : Option String
  suffix : String
deriving DecidableEq, Repr

inductive Directive where
  | version (major : Nat)
  | handle (name meaning : String)
  | other
deriving DecidableEq, Repr

inductive Token where
  | directive (d : Directive)
  | documentStart
  | documentEnd
  | blockSequence
  | blockMapping
  | blockEnd
  | flowSequence
  | flowSequenceEnd
  | flowMapping
  | flowMappingEnd
  | blockEntry
  | flowEntry
  | key
  | value
  | reference (name : String)
  | anchor (name : String)
  | tag (name : TagName)
  | scalar (text : String) (plain : Bool)
deriving DecidableEq, Repr

namespace Token

def readName (cs : List Char) : Except Flaw (String × List Char) :=
  let name := cs.takeWhile isNameChar
  let rest := cs.dropWhile isNameChar
  let closed := atGap rest || (rest.head?.map "?:,]\x7d%@`".toList.contains).getD true
  if name.isEmpty || !closed then .error .badName else .ok (String.ofList name, rest)

/-! ### Tags -/

def isUriChar (c : Char) : Bool := c.isAlphanum || "-;/?:@&=+$,_.!~*'()[]%".toList.contains c

/-- The byte that two hexadecimal digits after a percent sign spell. -/
def readByte? : List Char → Option (UInt8 × List Char)
  | '%' :: cs => (hexNumber? 2 cs).map fun n => (n.toUInt8, cs.drop 2)
  | _ => none

def readBytes : List Char → List UInt8 × List Char
  | '%' :: a :: b :: cs =>
    match readByte? ('%' :: a :: b :: cs) with
    | some (byte, _) =>
      let (bytes, rest) := readBytes cs
      (byte :: bytes, rest)
    | none => ([], '%' :: a :: b :: cs)
  | cs => ([], cs)

/-- The address in a tag; bytes may be written with percent signs. -/
def readUri (cs : List Char) : Except Flaw (List Char × List Char) :=
  match cs with
  | [] => .ok ([], [])
  | '%' :: cs =>
    let (bytes, rest) := readBytes ('%' :: cs)
    match String.fromUTF8? ⟨bytes.toArray⟩ with
    | some s =>
      if rest.length ≤ cs.length && rest.head? != some '%' then
        (readUri rest).map fun (uri, rest) => (s.toList ++ uri, rest)
      else .error .badTag
    | none => .error .badTag
  | c :: cs =>
    if isUriChar c then (readUri cs).map fun (uri, rest) => (c :: uri, rest)
    else .ok ([], c :: cs)
termination_by cs.length
decreasing_by
  · rename_i h
    simp only [Bool.and_eq_true, decide_eq_true_eq] at h
    simp only [List.length_cons]
    omega
  · simp

def readAddress (cs : List Char) : Except Flaw (String × List Char) := do
  let (uri, rest) ← readUri cs
  if uri.isEmpty then .error .badTag else return (String.ofList uri, rest)

/-- A handle: an exclamation mark, or a name between two of them. -/
def readHandle (cs : List Char) : Except Flaw (String × List Char) :=
  match cs with
  | '!' :: ' ' :: rest => .ok ("!", ' ' :: rest)
  | '!' :: rest =>
    let name := rest.takeWhile isNameChar
    match rest.dropWhile isNameChar with
    | '!' :: after => .ok (String.ofList ('!' :: name ++ ['!']), after)
    | _ => .error .badTag
  | _ => .error .badTag

/-- Does a handle of two exclamation marks open a tag? -/
def opensHandle (cs : List Char) : Bool :=
  (cs.takeWhile fun c => !(c == ' ' || isBreak c)).contains '!'

def readTag (cs : List Char) : Except Flaw (TagName × List Char) := do
  let (name, rest) ←
    match cs with
    | '<' :: cs =>
      let (address, rest) ← readAddress cs
      match rest with
      | '>' :: rest => pure (⟨none, address⟩, rest)
      | _ => throw Flaw.badTag
    | cs =>
      if atGap cs then pure (⟨none, "!"⟩, cs)
      else if opensHandle cs then
        let (handle, rest) ← readHandle ('!' :: cs)
        let (suffix, rest) ← readAddress rest
        pure ((⟨some handle, suffix⟩ : TagName), rest)
      else
        let (suffix, rest) ← readAddress cs
        pure (⟨some "!", suffix⟩, rest)
  if atSpace rest then return (name, rest) else throw .badTag

/-! ### Directives -/

/-- The number before the point of a version, where a number follows the point. -/
def readVersion (cs : List Char) : Except Flaw (Nat × List Char) :=
  let cs := cs.dropWhile (· == ' ')
  let major := cs.takeWhile Char.isDigit
  match cs.dropWhile Char.isDigit with
  | '.' :: rest =>
    let after := rest.dropWhile Char.isDigit
    if major.isEmpty || (rest.takeWhile Char.isDigit).isEmpty || !atSpace after then
      .error .badDirective
    else .ok (major.foldl (fun n d => 10 * n + (d.toNat - 48)) 0, after)
  | _ => .error .badDirective

def readHandleMeaning (cs : List Char) : Except Flaw (Directive × List Char) := do
  let (handle, rest) ← readHandle (cs.dropWhile (· == ' '))
  if rest.head? != some ' ' then throw .badDirective
  let (meaning, rest) ← readAddress (rest.dropWhile (· == ' '))
  if atSpace rest then return (.handle handle meaning, rest) else throw .badDirective

/-- A directive after its percent sign, with the line that it stands in. -/
def readDirective (cs : List Char) : Except Flaw (Directive × List Char) := do
  let name := String.ofList (cs.takeWhile isNameChar)
  let rest := cs.dropWhile isNameChar
  if name.isEmpty || !atSpace rest then throw .badDirective
  let (d, rest) ←
    if name == "YAML" then do
      let (major, rest) ← readVersion rest
      pure (Directive.version major, rest)
    else if name == "TAG" then readHandleMeaning rest
    else pure (.other, rest.dropWhile fun c => !isBreak c)
  match restOfLine? rest with
  | some rest => return (d, rest)
  | none => throw .badDirective

end Token
end Rehearsal.Yaml
