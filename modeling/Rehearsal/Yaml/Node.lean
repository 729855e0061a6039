import Rehearsal.Yaml.Schema
import Rehearsal.Yaml.Token.Basic

/-! The nodes of a document: scalars, sequences and mappings with their tags. An alias stands for the
node of its anchor. -/

namespace Rehearsal.Yaml
set_option autoImplicit false

inductive Node where
  | scalar (tag text : String)
  | sequence (tag : String) (items : List Node)
  | mapping (tag : String) (entries : List (Node × Node))
deriving Inhabited

namespace Node

def tag : Node → String
  | scalar t _ | sequence t _ | mapping t _ => t

/-- The node in the place of one that is left out. -/
def missing : Node := scalar (knownTag "null") ""

/-- What is known while the tokens of a document are read. -/
structure Reader where
  tokens : List Token
  /-- The nodes of anchors; an anchor whose node is not complete has none. -/
  anchors : List (String × Option Node)
  /-- What handles of tags stand for. -/
  handles : List (String × String)

abbrev Read := StateT Reader (Except Flaw)

namespace Read

def peek : Read (Option Token) := return (← get).tokens.head?

def skip : Read Unit := modify fun r => { r with tokens := r.tokens.drop 1 }

/-- Takes a token off if it is the next one. -/
def accept (t : Token) : Read Bool := do
  if (← peek) == some t then
    skip
    return true
  else return false

def sees (ts : List Token) : Read Bool := return ((← peek).map ts.contains).getD false

def openAnchor (name : String) : Read Unit := do
  if (← get).anchors.any (·.1 == name) then throw .repeatedAnchor
  modify fun r => { r with anchors := (name, none) :: r.anchors }

def closeAnchor (name : String) (n : Node) : Read Unit :=
  modify fun r =>
    { r with anchors := r.anchors.map fun a => if a.1 == name then (name, some n) else a }

def anchored (name : String) : Read Node := do
  match ((← get).anchors.find? (·.1 == name)).bind (·.2) with
  | some n => return n
  | none => throw .unknownAnchor

end Read

open Read

/-- What stands in front of a node. -/
structure Properties where
  anchor : Option String
  tag : Option TagName

def readAnchor : Read (Option String) := do
  match ← peek with
  | some (.anchor name) =>
    skip
    return some name
  | _ => return none

def readTagName : Read (Option TagName) := do
  match ← peek with
  | some (.tag name) =>
    skip
    return some name
  | _ => return none

def readProperties : Read Properties := do
  match ← readAnchor with
  | some name => return ⟨some name, ← readTagName⟩
  | none =>
    let tag ← readTagName
    match tag with
    | some _ => return ⟨← readAnchor, tag⟩
    | none => return ⟨none, none⟩

/-- The full tag; a single exclamation mark is no tag of its own. -/
def fullTag (name : TagName) : Read String := do
  match name.handle with
  | none => return name.suffix
  | some handle =>
    match (← get).handles.find? (·.1 == handle) with
    | some h => return h.2 ++ name.suffix
    | none => throw .unknownHandle

/-- The tag of a scalar. A plain one is known by its looks, and so is one behind a single exclamation
mark. -/
def scalarTag (tag : Option String) (plain : Bool) (text : String) : String :=
  match tag with
  | none => knownTag (if plain then plainKind text else "str")
  | some "!" => knownTag (plainKind text)
  | some t => t

def collectionTag (tag : Option String) (kind : String) : String :=
  match tag with
  | none | some "!" => knownTag kind
  | some t => t

/-- Where a node stands. -/
inductive Position where
  /-- Within a flow collection. -/
  | flow
  /-- An entry of a block sequence, or a document. -/
  | block
  /-- A key or a value of a block mapping, where a sequence need not be indented. -/
  | entry
deriving DecidableEq, Repr

/-- What can be no start of an entry's node. -/
def entryEnds : List Token := [.key, .value, .blockEnd]

mutual

/-- A node, with `fuel` for the tokens that it may take. -/
def readNode (fuel : Nat) (at_ : Position) : Read Node := do
  match fuel with
  | 0 => throw .unexpectedToken
  | fuel + 1 =>
    match ← peek with
    | some (.reference name) =>
      skip
      anchored name
    | _ =>
      let p ← readProperties
      let tag ← p.tag.mapM fullTag
      for name in p.anchor do openAnchor name
      let n ← readContent fuel at_ tag (p.anchor.isSome || tag.isSome)
      for name in p.anchor do closeAnchor name n
      return n

def readContent (fuel : Nat) (at_ : Position) (tag : Option String) (optional : Bool) :
    Read Node := do
  match fuel with
  | 0 => throw .unexpectedToken
  | fuel + 1 =>
    match ← peek with
    | some (.scalar text plain) =>
      skip
      return .scalar (scalarTag tag plain text) text
    | some .flowSequence =>
      skip
      return .sequence (collectionTag tag "seq") (← readFlowItems fuel true)
    | some .flowMapping =>
      skip
      return .mapping (collectionTag tag "map") (← readFlowEntries fuel true)
    | some .blockEntry =>
      if at_ = .entry then
        return .sequence (collectionTag tag "seq") (← readIndentless fuel)
      else emptyNode tag optional
    | some .blockSequence =>
      if at_ = .flow then emptyNode tag optional
      else
        skip
        return .sequence (collectionTag tag "seq") (← readBlockItems fuel)
    | some .blockMapping =>
      if at_ = .flow then emptyNode tag optional
      else
        skip
        return .mapping (collectionTag tag "map") (← readBlockEntries fuel)
    | _ => emptyNode tag optional

def emptyNode (tag : Option String) (optional : Bool) : Read Node :=
  if optional then return .scalar (scalarTag tag true "") "" else throw .unexpectedToken

def readBlockItems (fuel : Nat) : Read (List Node) := do
  match fuel with
  | 0 => throw .unexpectedToken
  | fuel + 1 =>
    if ← accept .blockEntry then
      let n ←
        if ← sees [.blockEntry, .blockEnd] then pure missing else readNode fuel .block
      return n :: (← readBlockItems fuel)
    else if ← accept .blockEnd then return []
    else throw .unexpectedToken

/-- The items of a sequence that is not indented within its mapping. -/
def readIndentless (fuel : Nat) : Read (List Node) := do
  match fuel with
  | 0 => throw .unexpectedToken
  | fuel + 1 =>
    if ← accept .blockEntry then
      let n ←
        if ← sees (.blockEntry :: entryEnds) then pure missing else readNode fuel .block
      return n :: (← readIndentless fuel)
    else return []

/-- A key or a value of a block mapping, which may be left out. -/
def readEntryPart (fuel : Nat) (mark : Token) : Read Node := do
  match fuel with
  | 0 => throw .unexpectedToken
  | fuel + 1 =>
    if ← accept mark then
      if ← sees entryEnds then return missing else readNode fuel .entry
    else return missing

def readBlockEntries (fuel : Nat) : Read (List (Node × Node)) := do
  match fuel with
  | 0 => throw .unexpectedToken
  | fuel + 1 =>
    if ← sees [.key] then
      let k ← readEntryPart fuel .key
      let v ← readEntryPart fuel .value
      return (k, v) :: (← readBlockEntries fuel)
    else if ← accept .blockEnd then return []
    else throw .unexpectedToken

/-- A key or a value in a flow collection that ends with `close`. -/
def readFlowPart (fuel : Nat) (mark : Token) (ends : List Token) : Read Node := do
  match fuel with
  | 0 => throw .unexpectedToken
  | fuel + 1 =>
    if ← accept mark then
      if ← sees ends then return missing else readNode fuel .flow
    else return missing

/-- The items of a flow sequence; an entry of a mapping on its own is a mapping of one entry. -/
def readFlowItems (fuel : Nat) (first : Bool) : Read (List Node) := do
  match fuel with
  | 0 => throw .unexpectedToken
  | fuel + 1 =>
    if ← accept .flowSequenceEnd then return []
    if !first then
      if !(← accept .flowEntry) then throw .unexpectedToken
    if ← accept .flowSequenceEnd then return []
    if ← sees [.key] then
      let k ← readFlowPart fuel .key [.value, .flowEntry, .flowSequenceEnd]
      let v ← readFlowPart fuel .value [.flowEntry, .flowSequenceEnd]
      return .mapping (knownTag "map") [(k, v)] :: (← readFlowItems fuel false)
    else
      let n ← readNode fuel .flow
      return n :: (← readFlowItems fuel false)

def readFlowEntries (fuel : Nat) (first : Bool) : Read (List (Node × Node)) := do
  match fuel with
  | 0 => throw .unexpectedToken
  | fuel + 1 =>
    if ← accept .flowMappingEnd then return []
    if !first then
      if !(← accept .flowEntry) then throw .unexpectedToken
    if ← accept .flowMappingEnd then return []
    if ← sees [.key] then
      let k ← readFlowPart fuel .key [.value, .flowEntry, .flowMappingEnd]
      let v ← readFlowPart fuel .value [.flowEntry, .flowMappingEnd]
      return (k, v) :: (← readFlowEntries fuel false)
    else
      let n ← readNode fuel .flow
      return (n, missing) :: (← readFlowEntries fuel false)

end

/-! ### Documents -/

def standardHandles : List (String × String) := [("!", "!"), ("!!", knownTag "")]

/-- The handles that directives declare. There is at most one version, and it is 1. -/
def handlesOf : List Directive → (version : Bool) → List (String × String) →
    Except Flaw (List (String × String))
  | [], _, handles => .ok (handles ++ standardHandles)
  | .version major :: ds, version, handles =>
    if version || major != 1 then .error .badDirective else handlesOf ds true handles
  | .handle name meaning :: ds, version, handles =>
    if handles.any (·.1 == name) then .error .badDirective
    else handlesOf ds version (handles ++ [(name, meaning)])
  | .other :: ds, version, handles => handlesOf ds version handles

def directive? : Token → Option Directive
  | .directive d => some d
  | _ => none

def isDirective (t : Token) : Bool := (directive? t).isSome

/-- Can no content of a document start with this token? -/
def endsDocument (t : Token) : Bool := isDirective t || t == .documentStart || t == .documentEnd

/-- The content of a document that is marked as one. -/
def readMarked : Read Node := do
  if ((← peek).map endsDocument).getD true then return missing
  else readNode (4 * (← get).tokens.length + 4) .block

def readBare : Read Node := do readNode (4 * (← get).tokens.length + 4) .block

/-- After a document comes nothing but marks of its end. -/
def checkEnd (ts : List Token) : Except Flaw Unit :=
  match ts.dropWhile (· == .documentEnd) with
  | [] => .ok ()
  | t :: _ => if endsDocument t then .error .severalDocuments else .error .unexpectedToken

/-- The node of the only document, if there is one. -/
def ofTokens? (ts : List Token) : Except Flaw (Option Node) := do
  let directives := (ts.takeWhile isDirective).filterMap directive?
  let content := ts.dropWhile isDirective
  if ts.isEmpty then return none
  let marked := content.head? == some .documentStart
  if !marked && !directives.isEmpty then throw .unexpectedToken
  let handles ← handlesOf directives false []
  let (n, r) ←
    if marked then readMarked.run ⟨content.drop 1, [], handles⟩
    else readBare.run ⟨content, [], handles⟩
  checkEnd r.tokens
  return some n

end Node
end Rehearsal.Yaml
