import Rehearsal.Yaml.Token.Basic

/-! Splitting a text into tokens. Blocks are found by indentation: a line that starts further in opens
one, a line that starts further out closes it. A key is known as one by the colon behind it, so the
places where keys may have started are kept, and the tokens that tell of a key are put there when its
colon is met. -/

namespace Rehearsal.Yaml
set_option autoImplicit false

/-- A place in a text: the text from there, the number of characters and of lines before it, and its
column. -/
structure Place where
  rest : List Char
  index : Nat
  line : Nat
  column : Nat

namespace Place

def next (p : Place) : Place :=
  match p.rest with
  | [] => p
  | c :: rest =>
    if isBreak c then ⟨rest, p.index + 1, p.line + 1, 0⟩
    else ⟨rest, p.index + 1, p.line, p.column + if c == byteOrderMark then 0 else 1⟩

def advance : Nat → Place → Place
  | 0, p => p
  | n + 1, p => advance n p.next

def advanceTo (p : Place) (rest : List Char) : Place := p.advance (p.rest.length - rest.length)

end Place

/-- A place where a key may have started. -/
structure KeyStart where
  /-- The flow collections that are open there. -/
  depth : Nat
  /-- The number of tokens before it. -/
  position : Nat
  place : Place
  /-- Must it be a key? -/
  required : Bool

/-- The furthest that a colon may be from the start of its key. -/
def keyReach : Nat := 1024

structure Layout where
  place : Place
  /-- The tokens found so far. -/
  tokens : List Token
  /-- The number of open flow collections. -/
  depth : Nat
  /-- The column of the innermost block; -1 outside all blocks. -/
  indent : Int
  /-- The columns of the blocks around it. -/
  outer : List Int
  /-- May a key start here? -/
  keyAllowed : Bool
  keys : List KeyStart

namespace Layout

abbrev Result := Except QuoteError Layout

def flaw {α : Type} (f : Flaw) : Except QuoteError α := .error (.flaw f)

def start (cs : List Char) : Layout where
  place := ⟨cs, 0, 0, 0⟩
  tokens := []
  depth := 0
  indent := -1
  outer := []
  keyAllowed := true
  keys := []

variable (l : Layout)

def rest : List Char := l.place.rest

def column : Int := l.place.column

def inFlow : Bool := l.depth != 0

def push (t : Token) : Layout := { l with tokens := l.tokens ++ [t] }

/-- Puts a token in front of those from a position on. -/
def insert (position : Nat) (t : Token) : Layout :=
  { l with tokens := l.tokens.take position ++ t :: l.tokens.drop position }

def moveTo (rest : List Char) : Layout := { l with place := l.place.advanceTo rest }

def forward (n : Nat) : Layout := { l with place := l.place.advance n }

def allowKey (b : Bool) : Layout := { l with keyAllowed := b }

/-! ### Indentation -/

def closeBlocks (column : Int) : (indent : Int) → List Int → Nat × Int × List Int
  | indent, [] => (0, indent, [])
  | indent, o :: os =>
    if column < indent then
      let (n, indent, outer) := closeBlocks column o os
      (n + 1, indent, outer)
    else (0, indent, o :: os)

/-- Leaves the blocks that a token at a column is not in; in a flow collection there are none. -/
def unwind (column : Int) : Layout :=
  if l.inFlow then l
  else
    let (n, indent, outer) := closeBlocks column l.indent l.outer
    { l with indent := indent, outer := outer, tokens := l.tokens ++ List.replicate n .blockEnd }

/-- Opens a block at a column, unless the innermost one has it, with a token at a position. -/
def openBlock (column : Int) (position : Nat) (t : Token) : Layout :=
  if l.indent < column then
    ({ l with outer := l.indent :: l.outer, indent := column }).insert position t
  else l

/-! ### Keys -/

/-- Gives up a start of a key, which is wrong if there must be one. -/
def giveUp (k : KeyStart) : Except QuoteError Unit :=
  if k.required then flaw .missingColon else .ok ()

/-- Gives up keys that their colons can no longer follow: a key is short and on one line. -/
def dropStale : Result := do
  let stale (k : KeyStart) : Bool :=
    k.place.line != l.place.line || k.place.index + keyReach < l.place.index
  for k in l.keys do
    if stale k then giveUp k
  return { l with keys := l.keys.filter fun k => !stale k }

def dropKey : Result := do
  for k in l.keys do
    if k.depth == l.depth then giveUp k
  return { l with keys := l.keys.filter (·.depth != l.depth) }

def saveKey : Result :=
  if l.keyAllowed then do
    let required := !l.inFlow && l.indent == l.column
    let l ← l.dropKey
    return { l with keys := l.keys ++ [⟨l.depth, l.tokens.length, l.place, required⟩] }
  else .ok l

/-! ### Tokens -/

/-- Goes over spaces, comments and line ends; is there a line end among them? -/
def skipFiller : (comment : Bool) → List Char → List Char × Bool
  | _, [] => ([], false)
  | comment, c :: cs =>
    if isBreak c then ((skipFiller false cs).1, true)
    else if comment then skipFiller true cs
    else if c == ' ' then skipFiller false cs
    else if c == '#' then skipFiller true cs
    else (c :: cs, false)

def toToken : Result :=
  let (rest, crosses) := skipFiller false l.rest
  let l := l.moveTo rest
  let l := if crosses && !l.inFlow then l.allowKey true else l
  (l.dropStale).map fun l => l.unwind l.column

def finish : Except QuoteError (List Token) :=
  (l.unwind (-1)).dropKey.map (·.tokens)

def marker (t : Token) : Result :=
  (l.unwind (-1)).dropKey.map fun l => ((l.allowKey false).push t).forward 3

def directive (cs : List Char) : Result := do
  let l ← (l.unwind (-1)).dropKey
  match Token.readDirective cs with
  | .ok (d, rest) => return ((l.allowKey false).push (.directive d)).moveTo rest
  | .error f => flaw f

def openFlow (t : Token) : Result :=
  (l.saveKey).map fun l => (({ l with depth := l.depth + 1 }.allowKey true).push t).forward 1

def closeFlow (t : Token) : Result :=
  (l.dropKey).map fun l => (({ l with depth := l.depth - 1 }.allowKey false).push t).forward 1

def flowEntry : Result :=
  ((l.allowKey true).dropKey).map fun l => (l.push .flowEntry).forward 1

def blockEntry : Result := do
  if !l.inFlow && !l.keyAllowed then flaw .entryNotAllowed
  let l := if l.inFlow then l else l.openBlock l.column l.tokens.length .blockSequence
  return (((← (l.allowKey true).dropKey).push .blockEntry).forward 1)

def explicitKey : Result := do
  if !l.inFlow && !l.keyAllowed then flaw .keyNotAllowed
  let l := if l.inFlow then l else l.openBlock l.column l.tokens.length .blockMapping
  return (((← (l.allowKey (!l.inFlow)).dropKey).push .key).forward 1)

/-- A colon behind a key whose start was noted. -/
def valueOf (k : KeyStart) : Layout :=
  let l := { l with keys := l.keys.filter (·.depth != l.depth) }
  let l := l.insert k.position .key
  let l := if l.inFlow then l else l.openBlock k.place.column k.position .blockMapping
  ((l.allowKey false).push .value).forward 1

/-- A colon behind no key, or behind one that a question mark opens. -/
def bareValue : Result := do
  if !l.inFlow && !l.keyAllowed then flaw .valueNotAllowed
  let l := if l.inFlow then l else l.openBlock l.column l.tokens.length .blockMapping
  return (((← (l.allowKey (!l.inFlow)).dropKey).push .value).forward 1)

def value : Result :=
  match l.keys.find? (·.depth == l.depth) with
  | some k => .ok (l.valueOf k)
  | none => l.bareValue

/-- A token that may be a key or stand in front of one. -/
def property (read : Except Flaw (Token × List Char)) : Result := do
  let l ← l.saveKey
  match read with
  | .ok (t, rest) => return ((l.allowKey false).push t).moveTo rest
  | .error f => flaw f

def block (folded : Bool) (cs : List Char) : Result := do
  let l ← (l.allowKey true).dropKey
  match readBlock folded l.indent cs with
  | .ok (text, rest) => return (l.push (.scalar (String.ofList text) false)).moveTo rest
  | .error f => flaw f

def quoted (double : Bool) (cs : List Char) : Result := do
  let l ← l.saveKey
  let (text, rest) ← readQuoted double cs
  return ((l.allowKey false).push (.scalar (String.ofList text) false)).moveTo rest

def plain : Result := do
  let l ← l.saveKey
  let p := readPlain l.inFlow (l.indent + 1) l.rest
  return ((l.allowKey p.crosses).push (.scalar (String.ofList p.text) true)).moveTo p.rest

def indicators : List Char := "-?:,[]\x7b\x7d#&*!|>'\"%@`".toList

def startsPlain (c : Char) (cs : List Char) : Bool :=
  !(isGap c || indicators.contains c) ||
    (!atGap cs && (c == '-' || (!l.inFlow && (c == '?' || c == ':'))))

def name (make : String → Token) (cs : List Char) : Except Flaw (Token × List Char) :=
  (Token.readName cs).map fun (name, rest) => (make name, rest)

def token (c : Char) (cs : List Char) : Result :=
  if c == '%' && l.place.column == 0 then l.directive cs
  else if c == '-' && l.place.column == 0 && atMarker (c :: cs) then l.marker .documentStart
  else if c == '.' && l.place.column == 0 && atMarker (c :: cs) then l.marker .documentEnd
  else if c == '[' then l.openFlow .flowSequence
  else if c == '\x7b' then l.openFlow .flowMapping
  else if c == ']' then l.closeFlow .flowSequenceEnd
  else if c == '\x7d' then l.closeFlow .flowMappingEnd
  else if c == ',' then l.flowEntry
  else if c == '-' && atGap cs then l.blockEntry
  else if c == '?' && (l.inFlow || atGap cs) then l.explicitKey
  else if c == ':' && (l.inFlow || atGap cs) then l.value
  else if c == '*' then l.property (name .reference cs)
  else if c == '&' then l.property (name .anchor cs)
  else if c == '!' then l.property ((Token.readTag cs).map fun (t, rest) => (.tag t, rest))
  else if c == '|' && !l.inFlow then l.block false cs
  else if c == '>' && !l.inFlow then l.block true cs
  else if c == '\'' then l.quoted false cs
  else if c == '"' then l.quoted true cs
  else if l.startsPlain c cs then l.plain
  else flaw .strayCharacter

/-- The tokens from a place on. Every token takes at least a character off the text. -/
def run (l : Layout) : Except QuoteError (List Token) :=
  match l.toToken with
  | .error e => .error e
  | .ok here =>
    match here.rest with
    | [] => here.finish
    | c :: cs =>
      match here.token c cs with
      | .error e => .error e
      | .ok after => if after.rest.length < l.rest.length then run after else flaw .strayCharacter
termination_by l.rest.length

end Layout

/-- The tokens of a text. A byte order mark at its start does not count. -/
def Token.ofText (s : String) : Except QuoteError (List Token) :=
  let cs := lineFeeds s.toList
  if !cs.all isPrintable then .error (.flaw .unprintable)
  else (Layout.start (if cs.head? == some byteOrderMark then cs.drop 1 else cs)).run

end Rehearsal.Yaml
