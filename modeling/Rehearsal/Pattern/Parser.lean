import Rehearsal.Pattern.Cursor
import Rehearsal.Text.Name
import Rehearsal.Text.Word

/-! Reading a pattern. Alternatives are separated by `|`; inside one, each token starts a node or
repeats the node before it. -/

namespace Rehearsal.Pattern
set_option autoImplicit false
open Rehearsal.Text Rehearsal.Number

def isAsciiDigit (c : Char) : Bool := '0' ≤ c && c ≤ '9'

def isOctalDigit (c : Char) : Bool := '0' ≤ c && c ≤ '7'

def hexDigitValue? (c : Char) : Option Nat :=
  if '0' ≤ c && c ≤ '9' then some (c.toNat - 48)
  else if 'a' ≤ c && c ≤ 'f' then some (c.toNat - 87)
  else if 'A' ≤ c && c ≤ 'F' then some (c.toNat - 55)
  else none

def isHexDigit (c : Char) : Bool := (hexDigitValue? c).isSome

def baseValue (base : Nat) (cs : List Char) : Nat :=
  cs.foldl (fun n c => base * n + (hexDigitValue? c).getD 0) 0

def isAsciiLetter (c : Char) : Bool := ('a' ≤ c && c ≤ 'z') || ('A' ≤ c && c ≤ 'Z')

/-- Names start with a letter or an underscore and go on with characters of a word. -/
def isIdentifier : List Char → Bool
  | [] => false
  | c :: cs => isWord c && !isDigit c && cs.all isWord

def showToken (t : List Char) : String := String.ofList t

/-- What the escape of one character stands for in a pattern and in a set. -/
inductive Escape where
  | code (n : Nat)
  | category (c : Category) (negated : Bool)
  | anchor (a : Anchor)
  | backref (id : Nat)

def controlEscape? : Char → Option Nat
  | 'a' => some 7
  | 'b' => some 8
  | 'f' => some 12
  | 'n' => some 10
  | 'r' => some 13
  | 't' => some 9
  | 'v' => some 11
  | '\\' => some 92
  | _ => none

def categoryEscape? : Char → Option (Category × Bool)
  | 'd' => some (.digit, false)
  | 'D' => some (.digit, true)
  | 's' => some (.space, false)
  | 'S' => some (.space, true)
  | 'w' => some (.word, false)
  | 'W' => some (.word, true)
  | _ => none

def anchorEscape? : Char → Option Anchor
  | 'A' => some .textStart
  | 'Z' => some .textStop
  | 'b' => some .boundary
  | 'B' => some .noBoundary
  | _ => none

def hexEscape (letter : Char) (n : Nat) : Reading Escape := do
  let ds ← takeUpTo isHexDigit n
  let escape := '\\' :: letter :: ds
  if ds.length == n then
    let code := baseValue 16 ds
    if code < 0x110000 then return .code code
    else failBack (.badEscape (showToken escape)) escape.length
  else failBack (.incompleteEscape (showToken escape)) escape.length

def namedEscape : Reading Escape := do
  if ← accept '\x7b' then
    let name ← takeUntil '\x7d' "character name" [] (← tokensLeft)
    match characterNamed? (showToken name) with
    | some n => return .code n
    | none => failBack (.unknownCharacterName (showToken name)) (name.length + 4)
  else failBack .missingBrace 0

/-- The escapes that a pattern and a set share: by code point, or a character that needs none. -/
def commonEscape (letter : Char) : Reading Escape := do
  match letter with
  | 'x' => hexEscape 'x' 2
  | 'u' => hexEscape 'u' 4
  | 'U' => hexEscape 'U' 8
  | 'N' => namedEscape
  | c =>
    if isAsciiLetter c || isAsciiDigit c then failBack (.badEscape (showToken ['\\', c])) 2
    else return .code c.toNat

def octalEscape (escape : List Char) : Reading Escape := do
  let code := baseValue 8 (escape.drop 1)
  if 255 < code then failBack (.octalTooLarge (showToken escape)) escape.length
  else return .code code

def setEscape (letter : Char) : Reading Escape := do
  match controlEscape? letter, categoryEscape? letter with
  | some n, _ => return .code n
  | _, some (c, negated) => return .category c negated
  | none, none =>
    if isOctalDigit letter then
      let ds ← takeUpTo isOctalDigit 2
      octalEscape ('\\' :: letter :: ds)
    else commonEscape letter

/-- A group may be referred to once it is closed, and in a look-behind only if it was closed before. -/
def checkLookBehind (id : Nat) : Reading Unit := do
  let c ← get
  match c.lookBehind with
  | none => return
  | some first =>
    if !c.isClosed id then failBack .openGroup 0
    else if first ≤ id then failBack .sameLookBehind 0
    else return

def groupEscape (escape : List Char) : Reading Escape := do
  let id := baseValue 10 (escape.drop 1)
  let c ← get
  if id < c.groups then
    if !c.isClosed id then failBack .openGroup escape.length
    checkLookBehind id
    return .backref id
  else failBack (.noSuchGroup id) (escape.length - 1)

/-- After a digit other than zero: three octal digits are a code point, one or two digits a group. -/
def digitEscape (letter : Char) : Reading Escape := do
  if ← aheadIs isAsciiDigit then
    let second := ((← next).getD []).headD '0'
    if isOctalDigit letter && isOctalDigit second && (← aheadIs isOctalDigit) then
      let third := ((← next).getD []).headD '0'
      octalEscape ['\\', letter, second, third]
    else groupEscape ['\\', letter, second]
  else groupEscape ['\\', letter]

def patternEscape (letter : Char) : Reading Escape := do
  match categoryEscape? letter, anchorEscape? letter, controlEscape? letter with
  | some (c, negated), _, _ => return .category c negated
  | _, some a, _ => return .anchor a
  | _, _, some n => return .code n
  | none, none, none =>
    if letter == '0' then
      let ds ← takeUpTo isOctalDigit 2
      return .code (baseValue 8 ds)
    else if isAsciiDigit letter then digitEscape letter
    else commonEscape letter

def Escape.node : Escape → Node
  | .code n => .one n
  | .category c negated => .set false [.category c negated]
  | .anchor a => .anchor a
  | .backref id => .backref id

def setElement (t : Token) : Reading Escape := do
  match t with
  | '\\' :: letter :: _ => setEscape letter
  | c :: _ => return .code c.toNat
  | [] => return .code 0

def Escape.setItem : Escape → SetItem
  | .category c negated => .category c negated
  | .code n => .one n
  | _ => .one 0

def pushNew (items : List SetItem) (item : SetItem) : List SetItem :=
  if items.contains item then items else items ++ [item]

/-- The items of a set up to its closing bracket; `opened` is the index of the opening one. -/
def readSetItems (opened : Nat) (items : List SetItem) : Nat → Reading (List SetItem)
  | 0 => fail .unterminatedSet opened
  | fuel + 1 => do
    match ← next with
    | none => fail .unterminatedSet opened
    | some this =>
      if this == [']'] && !items.isEmpty then return items
      else
        let low ← setElement this
        if ← accept '-' then
          match ← next with
          | none => fail .unterminatedSet opened
          | some that =>
            if that == [']'] then
              return pushNew (pushNew items low.setItem) (.one 45)
            else
              let high ← setElement that
              let flaw := Flaw.badRange (showToken this) (showToken that)
              match low, high with
              | .code a, .code b =>
                if b < a then failBack flaw (this.length + 1 + that.length)
                else readSetItems opened (pushNew items (.range a b)) fuel
              | _, _ => failBack flaw (this.length + 1 + that.length)
        else readSetItems opened (pushNew items low.setItem) fuel

def readSet : Reading Node := do
  let opened := (← get).position - 1
  let negated ← accept '^'
  let items ← readSetItems opened [] (← tokensLeft)
  match items, negated with
  | [.one code], false => return .one code
  | [.one code], true => return .other code
  | items, negated => return .set negated items

def repetitionLimit : Nat := 4294967295

def repetitionCount (ds : List Char) : Reading Nat := do
  match readInt (showToken ds) with
  | .error e => throw (.number e)
  | .ok n => if repetitionLimit ≤ n.toNat then throw .repetitionTooLarge else return n.toNat

/-- The bounds of a repetition in braces, after the opening one; `none` if no bounds follow, and
then nothing is taken. -/
def readBounds : Reading (Option (Nat × Option Nat)) := do
  let saved ← get
  let here := saved.position
  let lo ← takeUpTo isAsciiDigit (← tokensLeft)
  let comma ← accept ','
  let hi ← if comma then takeUpTo isAsciiDigit (← tokensLeft) else pure lo
  if ← accept '\x7d' then
    let least ← if lo.isEmpty then pure 0 else repetitionCount lo
    if hi.isEmpty then return some (least, none)
    else
      let most ← repetitionCount hi
      if most < least then fail .leastAboveMost here
      else return some (least, some most)
  else
    set saved
    return none

/-- Replaces the last node by its repetition; `taken` is where the quantifier starts. -/
def repeatLast (nodes : List Node) (least : Nat) (most : Option Nat) (taken : Nat) :
    Reading (List Node) := do
  match nodes.getLast? with
  | none => fail .nothingToRepeat taken
  | some last =>
    if last.isAnchor then fail .nothingToRepeat taken
    else if last.isLoop then fail .multipleRepeat taken
    else
      let body := (last.plainBody?).getD [last]
      let greed : Greed ←
        if ← accept '?' then pure .lazy
        else if ← accept '+' then pure .possessive
        else pure .greedy
      return nodes.dropLast ++ [.loop greed least most body]

def flagOf? : Char → Option Flags
  | 'i' => some { ignoreCase := true }
  | 'm' => some { multiline := true }
  | 's' => some { dotAll := true }
  | 'x' => some { verbose := true }
  | 'a' => some { ascii := true }
  | 't' => some { template := true }
  | 'u' => some { unicode := true }
  | 'L' => some {}
  | _ => none

def tokenFlag? : Token → Option (Char × Flags)
  | [c] => (flagOf? c).map fun f => (c, f)
  | _ => none

/-- A token is a letter of any script where a flag is looked for. -/
def isLetterToken : Token → Bool
  | [c] => isWord c && c != '_' && !isDigit c
  | _ => false

/-- The flags that are turned on, up to the token that ends them. -/
def readFlagsOn (first : Char × Flags) (on : Flags) : Nat → Reading (Flags × Token)
  | 0 => failBack .missingFlagsEnd 0
  | fuel + 1 => do
    let (letter, flag) := first
    if letter == 'L' then failBack .localeFlag 0
    let on := on.union flag
    if (flag.ascii || flag.unicode) && on.ascii && on.unicode then failBack .alphabetClash 0
    match ← next with
    | none => failBack .missingFlagsEnd 0
    | some t =>
      if t == [')'] || t == ['-'] || t == [':'] then return (on, t)
      else
        match tokenFlag? t with
        | some f => readFlagsOn f on fuel
        | none => failBack (if isLetterToken t then .unknownFlag else .missingFlagsEnd) t.length

/-- The flags that are turned off, up to the colon. -/
def readFlagsOff (first : Char × Flags) (off : Flags) : Nat → Reading Flags
  | 0 => failBack .missingColon 0
  | fuel + 1 => do
    let (letter, flag) := first
    if letter == 'L' || flag.ascii || flag.unicode then failBack .turnsOffAlphabet 0
    let off := off.union flag
    match ← next with
    | none => failBack .missingColon 0
    | some t =>
      if t == [':'] then return off
      else
        match tokenFlag? t with
        | some f => readFlagsOff f off fuel
        | none => failBack (if isLetterToken t then .unknownFlag else .missingColon) t.length

/-- The flags of a group, from the token `t` on: those turned on and off, or `none` when they hold
for the whole pattern. -/
def readFlags (t : Token) : Reading (Option (Flags × Flags)) := do
  let (on, stop) ←
    match tokenFlag? t with
    | some f => readFlagsOn f .none (← tokensLeft)
    | none => pure (Flags.none, t)
  if stop == [')'] then
    modify fun c => { c with flags := c.flags.union on }
    return none
  if on.template then failBack .turnsOnGlobal 1
  let off ←
    if stop == ['-'] then
      match ← next with
      | none => failBack .missingFlag 0
      | some t =>
        match tokenFlag? t with
        | some f => readFlagsOff f .none (← tokensLeft)
        | none => failBack (if isLetterToken t then .unknownFlag else .missingFlag) t.length
    else pure Flags.none
  if off.template then failBack .turnsOffGlobal 1
  if on.overlaps off then failBack .onAndOff 1
  return some (on, off)

def skipLine : Nat → Reading Unit
  | 0 => return
  | fuel + 1 => do
    match ← next with
    | none => return
    | some t => if t == ['\n'] then return else skipLine fuel

/-- Skips a comment group; `opened` is the index of its parenthesis. -/
def skipComment (opened : Nat) : Nat → Reading Unit
  | 0 => return
  | fuel + 1 => do
    if (← ahead).isNone then fail .unterminatedComment opened
    if (← next) == some [')'] then return else skipComment opened fuel

def openGroup (name : Option (List Char)) : Reading Nat := do
  let c ← get
  let id := c.groups
  match name with
  | none => set { c with widths := c.widths ++ [none] }
  | some n =>
    let name := showToken n
    set { c with widths := c.widths ++ [none] }
    match c.names.lookup name with
    | some first => failBack (.nameTaken name id first) (n.length + 1)
    | none => modify fun c => { c with names := c.names ++ [(name, id)] }
  return id

def closeGroup (id : Nat) (body : List Node) : Reading Unit :=
  modify fun c => { c with widths := c.widths.set id (some (seqWidth c.width body)) }

def readName (terminator : Char) : Reading (List Char) := do
  let name ← takeUntil terminator "group name" [] (← tokensLeft)
  if isIdentifier name then return name
  else failBack (.badNameCharacter (showToken name)) (name.length + 1)

def readNamedBackref : Reading Node := do
  let name ← readName ')'
  let c ← get
  match c.names.lookup (showToken name) with
  | none => failBack (.unknownName (showToken name)) (name.length + 1)
  | some id =>
    if !c.isClosed id then failBack .openGroup (name.length + 1)
    checkLookBehind id
    return .backref id

def groupLimit : Int := 1073741823

/-- The group that a condition asks for, by name or by number. -/
def readCondition : Reading Nat := do
  let name ← takeUntil ')' "group name" [] (← tokensLeft)
  let c ← get
  if isIdentifier name then
    match c.names.lookup (showToken name) with
    | none => failBack (.unknownName (showToken name)) (name.length + 1)
    | some id => return id
  else
    match readInt (showToken name) with
    | .error _ => failBack (.badNameCharacter (showToken name)) (name.length + 1)
    | .ok n =>
      if n < 0 then failBack (.badNameCharacter (showToken name)) (name.length + 1)
      else if n == 0 then failBack .badGroupNumber (name.length + 1)
      else if groupLimit ≤ n then failBack (.noSuchGroup n.toNat) (name.length + 1)
      else
        let id := n.toNat
        if (c.mentioned.lookup id).isNone then
          set { c with mentioned := c.mentioned ++ [(id, c.position - name.length - 1)] }
        return id

/-- What the characters after an opening parenthesis announce. -/
inductive Opening where
  | capture (name : Option (List Char))
  | bracket (added removed : Flags)
  | atomic
  | look (behind negated : Bool)
  | condition (id : Nat)
  | globalFlags
  | comment
  | node (n : Node)

def readNamedOpening : Reading Opening := do
  if ← accept '<' then return .capture (some (← readName '>'))
  else if ← accept '=' then return .node (← readNamedBackref)
  else
    match ← next with
    | none => failBack .unexpectedEnd 0
    | some t => failBack (.unknownExtension ("?P" ++ showToken t)) (t.length + 2)

def readOpening (opened : Nat) : Reading Opening := do
  if ← accept '?' then
    match ← next with
    | none => failBack .unexpectedEnd 0
    | some ['P'] => readNamedOpening
    | some [':'] => return .bracket .none .none
    | some ['#'] =>
      skipComment opened (← tokensLeft)
      return .comment
    | some ['='] => return .look false false
    | some ['!'] => return .look false true
    | some ['<'] =>
      match ← next with
      | none => failBack .unexpectedEnd 0
      | some ['='] => return .look true false
      | some ['!'] => return .look true true
      | some t => failBack (.unknownExtension ("?<" ++ showToken t)) (t.length + 2)
    | some ['('] =>
      let id ← readCondition
      checkLookBehind id
      return .condition id
    | some ['>'] => return .atomic
    | some t =>
      if (tokenFlag? t).isSome || t == ['-'] then
        match ← readFlags t with
        | some (on, off) => return .bracket on off
        | none => return .globalFlags
      else failBack (.unknownExtension ("?" ++ showToken t)) (t.length + 1)
  else return .capture none

/-- Brackets that hold no flags give way to what they hold. -/
def unwrap (nodes : List Node) : List Node :=
  nodes.flatMap fun n => (n.plainBody?).getD [n]

def isPatternSpace (c : Char) : Bool :=
  c == ' ' || c == '\t' || c == '\n' || c == '\r' || c.toNat == 11 || c.toNat == 12

def closeParenthesis (opened : Nat) : Reading Unit := do
  if ← accept ')' then return else fail .unterminatedGroup opened

mutual

/-- Alternatives, up to the end or to a closing parenthesis. At the top a flag for the whole pattern
may switch the verbose form on between them. -/
def readChoice (fuel : Nat) (verbose top : Bool) : Reading (List Node) :=
  match fuel with
  | 0 => return []
  | fuel + 1 => do
    let first ← readSequence fuel verbose top []
    let flags := (← get).flags
    let others ← readBranches fuel (if top then flags.verbose else verbose)
    return if others.isEmpty then first else [.choice (first :: others)]

def readBranches (fuel : Nat) (verbose : Bool) : Reading (List (List Node)) :=
  match fuel with
  | 0 => return []
  | fuel + 1 => do
    if ← accept '|' then
      let branch ← readSequence fuel verbose false []
      let others ← readBranches fuel verbose
      return branch :: others
    else return []

/-- The nodes of one alternative; `first` tells that flags for the whole pattern may stand here. -/
def readSequence (fuel : Nat) (verbose first : Bool) (nodes : List Node) : Reading (List Node) :=
  match fuel with
  | 0 => return unwrap nodes
  | fuel + 1 => do
    match ← ahead with
    | none => return unwrap nodes
    | some ['|'] => return unwrap nodes
    | some [')'] => return unwrap nodes
    | some this =>
      let start := (← get).position
      let _ ← next
      match this with
      | '\\' :: letter :: _ =>
        let e ← patternEscape letter
        readSequence fuel verbose first (nodes ++ [e.node])
      | [c] =>
        if verbose && isPatternSpace c then readSequence fuel verbose first nodes
        else if verbose && c == '#' then
          skipLine (← tokensLeft)
          readSequence fuel verbose first nodes
        else
          match c with
          | '[' =>
            let n ← readSet
            readSequence fuel verbose first (nodes ++ [n])
          | '.' => readSequence fuel verbose first (nodes ++ [.any])
          | '^' => readSequence fuel verbose first (nodes ++ [.anchor .start])
          | '$' => readSequence fuel verbose first (nodes ++ [.anchor .stop])
          | '?' =>
            let nodes ← repeatLast nodes 0 (some 1) start
            readSequence fuel verbose first nodes
          | '*' =>
            let nodes ← repeatLast nodes 0 none start
            readSequence fuel verbose first nodes
          | '+' =>
            let nodes ← repeatLast nodes 1 none start
            readSequence fuel verbose first nodes
          | '\x7b' =>
            if (← ahead) == some ['\x7d'] then
              readSequence fuel verbose first (nodes ++ [.one c.toNat])
            else
              match ← readBounds with
              | none => readSequence fuel verbose first (nodes ++ [.one c.toNat])
              | some (least, most) =>
                let nodes ← repeatLast nodes least most start
                readSequence fuel verbose first nodes
          | '(' =>
            match ← readOpening start with
            | .comment => readSequence fuel verbose first nodes
            | .globalFlags =>
              if !first || !nodes.isEmpty then fail .globalFlagsLate start
              let flags := (← get).flags
              readSequence fuel flags.verbose first nodes
            | .node n => readSequence fuel verbose first (nodes ++ [n])
            | .look behind negated =>
              let outer := (← get).lookBehind
              if behind && outer.isNone then
                modify fun c => { c with lookBehind := some c.groups }
              let body ← readChoice fuel verbose false
              if behind then modify fun c => { c with lookBehind := outer }
              closeParenthesis start
              let c ← get
              let width := if behind then some (seqWidth c.width body) else none
              readSequence fuel verbose first (nodes ++ [.look width negated body])
            | .condition id =>
              let yes ← readSequence fuel verbose false []
              let no ←
                if ← accept '|' then
                  let no ← readSequence fuel verbose false []
                  if (← ahead) == some ['|'] then failBack .tooManyBranches 0
                  pure (some no)
                else pure none
              closeParenthesis start
              readSequence fuel verbose first (nodes ++ [.conditional id yes no])
            | .atomic =>
              let body ← readChoice fuel verbose false
              closeParenthesis start
              readSequence fuel verbose first (nodes ++ [.atomic body])
            | .bracket added removed =>
              let body ←
                readChoice fuel ((verbose || added.verbose) && !removed.verbose) false
              closeParenthesis start
              readSequence fuel verbose first (nodes ++ [.group none added removed body])
            | .capture name =>
              let id ← openGroup name
              let body ← readChoice fuel verbose false
              closeParenthesis start
              closeGroup id body
              readSequence fuel verbose first (nodes ++ [.group (some id) .none .none body])
          | c => readSequence fuel verbose first (nodes ++ [.one c.toNat])
      | _ => readSequence fuel verbose first nodes

end

/-- A pattern that was read: its nodes, the flags for the whole of it and its groups. -/
structure Parsed where
  nodes : List Node
  flags : Flags
  groups : Nat
  names : List (String × Nat)

def readPattern (length : Nat) : Reading Parsed := do
  let _ ← next
  let nodes ← readChoice (4 * length + 8) false true
  let c ← get
  if c.flags.ascii && c.flags.unicode then throw .alphabets
  if c.ahead.isSome then failBack .unbalanced 0
  match c.mentioned.find? fun m => c.groups ≤ m.1 with
  | some (id, place) => fail (.noSuchGroup id) place
  | none =>
    return ⟨nodes, { c.flags with unicode := !c.flags.ascii }, c.groups - 1, c.names⟩

def parse (pattern : String) : Except PatternError Parsed :=
  let cs := pattern.toList
  let start : Cursor := ⟨cs, 0, none, .none, [], [none], none, []⟩
  ((readPattern cs.length).run start).map (·.1)

end Rehearsal.Pattern
