import Rehearsal.Text.Surrogate
import Rehearsal.Yaml.Text

/-! Scalars as they are written: in quotes, as blocks under a header, and plain. Each reader takes the
characters of the scalar off a text and answers with what it spells and with the rest. -/

namespace Rehearsal.Yaml
set_option autoImplicit false

/-! ### In quotes -/

/-- Why a quoted scalar cannot be read. -/
inductive QuoteError where
  | flaw (f : Flaw)
  /-- An escape for a number that no character has. -/
  | noCharacter (code : Nat)
deriving DecidableEq, Repr

abbrev QuoteResult := Except QuoteError (List Char × List Char)

def QuoteResult.prepend (text : List Char) : QuoteResult → QuoteResult
  | .ok (more, rest) => .ok (text ++ more, rest)
  | .error e => .error e

/-- Characters that an escape of one letter stands for. -/
def letterEscape? : Char → Option Char
  | '0' => some '\x00'
  | 'a' => some '\x07'
  | 'b' => some '\x08'
  | 't' | '\t' => some '\t'
  | 'n' => some '\n'
  | 'v' => some '\x0b'
  | 'f' => some '\x0c'
  | 'r' => some '\x0d'
  | 'e' => some '\x1b'
  | ' ' => some ' '
  | '"' => some '"'
  | '\\' => some '\\'
  | '/' => some '/'
  | 'N' => some '\u0085'
  | '_' => some '\u00a0'
  | 'L' => some '\u2028'
  | 'P' => some '\u2029'
  | _ => none

/-- How many hexadecimal digits follow the letter of an escape. -/
def escapeLength? : Char → Option Nat
  | 'x' => some 2
  | 'u' => some 4
  | 'U' => some 8
  | _ => none

def hexValue? (c : Char) : Option Nat :=
  if c.isDigit then some (c.toNat - 48)
  else if 'a' ≤ c && c ≤ 'f' then some (c.toNat - 87)
  else if 'A' ≤ c && c ≤ 'F' then some (c.toNat - 55)
  else none

def hexNumber? (n : Nat) (cs : List Char) : Option Nat :=
  let digits := (cs.take n).filterMap hexValue?
  if digits.length == n then some (digits.foldl (fun v d => 16 * v + d) 0) else none

def lastCode : Nat := 0x10FFFF

/-- Line ends after the first in a quoted scalar; blanks around them do not count. -/
def quotedBreaks (cs : List Char) : Except QuoteError (List Char × List Char) :=
  if atMarker cs then .error (.flaw .unclosedQuote)
  else
    match h : cs.dropWhile isBlank with
    | [] => .ok ([], [])
    | c :: rest =>
      have := length_lt_of_dropWhile h
      if isBreak c then QuoteResult.prepend [breakText c] (quotedBreaks rest)
      else .ok ([], c :: rest)
termination_by cs.length

/-- What a line end in a quoted scalar becomes: a space, unless others follow it. -/
def foldBreak (c : Char) (more : List Char) : List Char :=
  if breakText c != '\n' then breakText c :: more
  else if more.isEmpty then [' ']
  else more

/-- A piece of a quoted scalar, from an escape on. -/
def readEscape (cs : List Char) : QuoteResult :=
  match cs with
  | [] => .error (.flaw .badEscape)
  | c :: rest =>
    match letterEscape? c, escapeLength? c with
    | some e, _ => .ok ([e], rest)
    | none, some n =>
      match hexNumber? n rest with
      | some code =>
        if lastCode < code then .error (.noCharacter code)
        else .ok ([Text.charOfCode code], rest.drop n)
      | none => .error (.flaw .badEscape)
    | none, none =>
      if isBreak c then quotedBreaks rest else .error (.flaw .badEscape)

/-- A piece of a quoted scalar from a gap on. -/
def readQuotedGap (cs : List Char) : QuoteResult :=
  match cs.dropWhile isBlank with
  | [] => .error (.flaw .unclosedQuote)
  | c :: rest =>
    if isBreak c then (quotedBreaks rest).map fun (more, rest) => (foldBreak c more, rest)
    else .ok (cs.takeWhile isBlank, c :: rest)

/-- One piece of a quoted scalar: an escape, a gap or a character. -/
def readPiece (double : Bool) (c : Char) (cs : List Char) : QuoteResult :=
  if double && c == '\\' then readEscape cs
  else if isGap c then readQuotedGap (c :: cs)
  else .ok ([c], cs)

/-- A quoted scalar after its opening quote. Between single quotes, two of them stand for one. -/
def readQuoted (double : Bool) (cs : List Char) : QuoteResult :=
  let quote := if double then '"' else '\''
  match cs with
  | [] => .error (.flaw .unclosedQuote)
  | [c] => if c == quote then .ok ([], []) else .error (.flaw .unclosedQuote)
  | c :: d :: rest =>
    if c == quote then
      if !double && d == quote then QuoteResult.prepend ['\''] (readQuoted double rest)
      else .ok ([], d :: rest)
    else
      match readPiece double c (d :: rest) with
      | .error e => .error e
      | .ok (text, after) =>
        if after.length < (c :: d :: rest).length then
          QuoteResult.prepend text (readQuoted double after)
        else .error (.flaw .unclosedQuote)
termination_by cs.length
decreasing_by all_goals (simp only [List.length_cons] at *; omega)

/-! ### Blocks -/

/-- What happens to the line ends at the end of a block. -/
inductive Chomping where
  | clip
  | strip
  | keep
deriving DecidableEq, Repr

structure BlockHeader where
  chomping : Chomping
  /-- How much further than the text around it the block is indented, if that is said. -/
  increment : Option Nat

def chompingOf? : Char → Option Chomping
  | '+' => some .keep
  | '-' => some .strip
  | _ => none

def incrementOf? (c : Char) : Option Nat := if c.isDigit then some (c.toNat - 48) else none

/-- The two indicators of a header, in either order. -/
def readIndicators : List Char → BlockHeader × List Char
  | [] => (⟨.clip, none⟩, [])
  | c :: cs =>
    match chompingOf? c, incrementOf? c with
    | some k, _ =>
      match cs.head?.bind incrementOf? with
      | some n => (⟨k, some n⟩, cs.drop 1)
      | none => (⟨k, none⟩, cs)
    | none, some n =>
      match cs.head?.bind chompingOf? with
      | some k => (⟨k, some n⟩, cs.drop 1)
      | none => (⟨.clip, some n⟩, cs)
    | none, none => (⟨.clip, none⟩, c :: cs)

/-- The header of a block with the line that it stands in. -/
def readHeader (cs : List Char) : Except Flaw (BlockHeader × List Char) :=
  let (header, rest) := readIndicators cs
  if header.increment == some 0 || !atSpace rest then .error .badHeader
  else
    match restOfLine? rest with
    | some rest => .ok (header, rest)
    | none => .error .badHeader

/-- The start of a line in a block: the line ends before it, its column, and the text from there. -/
structure LineStart where
  breaks : List Char
  column : Nat
  rest : List Char

def LineStart.afterBreak (c : Char) (s : LineStart) : LineStart :=
  { s with breaks := breakText c :: s.breaks }

/-- Goes over empty lines and over spaces up to an indentation. -/
def lineStart (indent : Nat) (column : Nat) : List Char → LineStart
  | [] => ⟨[], column, []⟩
  | c :: cs =>
    if c == ' ' && column < indent then lineStart indent (column + 1) cs
    else if isBreak c then (lineStart indent 0 cs).afterBreak c
    else ⟨[], column, c :: cs⟩

/-- Goes over empty lines and spaces, and finds the widest indentation. -/
def widestStart (column : Nat) : List Char → Nat × LineStart
  | [] => (0, ⟨[], column, []⟩)
  | c :: cs =>
    if c == ' ' then
      let (widest, s) := widestStart (column + 1) cs
      (max (column + 1) widest, s)
    else if isBreak c then
      let (widest, s) := widestStart 0 cs
      (widest, s.afterBreak c)
    else (0, ⟨[], column, c :: cs⟩)

/-- Does a line start with something else than a blank? -/
def startsFull : List Char → Bool
  | [] => true
  | c :: _ => !isBlank c

/-- What stands between two lines of a block. Folded lines are joined by a space. -/
def joint (folded : Bool) (line : List Char) (c : Char) (next : LineStart) : List Char :=
  if folded && breakText c == '\n' && startsFull line && startsFull next.rest then
    if next.breaks.isEmpty then [' '] else []
  else [breakText c]

/-- The lines of a block: their text, the end of the last one, and how the text goes on. -/
def readLines (folded : Bool) (indent : Nat) (cs : List Char) :
    List Char × List Char × LineStart :=
  let line := cs.takeWhile fun c => !isBreak c
  match cs.dropWhile fun c => !isBreak c with
  | [] => (line, [], ⟨[], indent + line.length, []⟩)
  | c :: after =>
    let next := lineStart indent 0 after
    if next.column == indent && !next.rest.isEmpty && next.rest.length < cs.length then
      let (text, last, s) := readLines folded indent next.rest
      (line ++ joint folded line c next ++ next.breaks ++ text, last, s)
    else (line, [breakText c], next)
termination_by cs.length
decreasing_by
  rename_i h
  simp only [Bool.and_eq_true, decide_eq_true_eq] at h
  exact h.2

/-- A block after its indicator, within a text indented by `outer`. -/
def readBlock (folded : Bool) (outer : Int) (cs : List Char) :
    Except Flaw (List Char × List Char) := do
  let (header, cs) ← readHeader cs
  let least := max 1 (outer + 1).toNat
  let (indent, start) :=
    match header.increment with
    | some n => (least + n - 1, lineStart (least + n - 1) 0 cs)
    | none =>
      let (widest, s) := widestStart 0 cs
      (max least widest, s)
  let (text, last, stop) :=
    if start.column == indent && !start.rest.isEmpty then
      let (text, last, s) := readLines folded indent start.rest
      (start.breaks ++ text, last, s)
    else ([], [], start)
  match header.chomping with
  | .strip => return (text, stop.rest)
  | .clip => return (text ++ last, stop.rest)
  | .keep => return (text ++ last ++ stop.breaks, stop.rest)

/-! ### Plain -/

def isFlowIndicator (c : Char) : Bool :=
  c == ',' || c == '[' || c == ']' || c == '\x7b' || c == '\x7d'

/-- Is a plain word over here? A colon ends it before a gap. -/
def endsWord (flow : Bool) : List Char → Bool
  | [] => true
  | c :: cs =>
    isGap c || (c == ':' && (atGap cs || (flow && (cs.head?.map isFlowIndicator).getD false))) ||
      (flow && (isFlowIndicator c || c == '?'))

def readWord (flow : Bool) : List Char → List Char × List Char
  | [] => ([], [])
  | c :: cs =>
    if endsWord flow (c :: cs) then ([], c :: cs)
    else
      let (word, rest) := readWord flow cs
      (c :: word, rest)

/-- What lies between two words of a plain scalar. -/
structure PlainGap where
  text : List Char
  /-- Does it hold a line end? -/
  crosses : Bool
  /-- The column after it, counted from the last line end. -/
  column : Nat
  rest : List Char

/-- Line ends after the first in a plain scalar; without a start where a document starts or ends. -/
def plainBreaks (column : Nat) (cs : List Char) : Option LineStart × List Char :=
  match cs with
  | [] => (some ⟨[], column, []⟩, [])
  | c :: rest =>
    if c == ' ' then plainBreaks (column + 1) rest
    else if isBreak c then
      if atMarker rest then (none, rest)
      else
        let (s, after) := plainBreaks 0 rest
        (s.map (·.afterBreak c), after)
    else (some ⟨[], column, c :: rest⟩, c :: rest)

def readPlainGap (cs : List Char) : PlainGap :=
  let spaces := cs.takeWhile (· == ' ')
  match cs.dropWhile (· == ' ') with
  | [] => ⟨spaces, false, 0, []⟩
  | c :: rest =>
    if isBreak c then
      if atMarker rest then ⟨[], true, 0, rest⟩
      else
        match plainBreaks 0 rest with
        | (some s, after) => ⟨foldBreak c s.breaks, true, s.column, after⟩
        | (none, after) => ⟨[], true, 0, after⟩
    else ⟨spaces, false, 0, c :: rest⟩

structure Plain where
  text : List Char
  /-- Does the scalar end with line ends that are no part of its text? -/
  crosses : Bool
  rest : List Char

def PlainGap.closes (g : PlainGap) (flow : Bool) (indent : Int) : Bool :=
  g.text.isEmpty || g.rest.head? == some '#' || (!flow && g.crosses && (g.column : Int) < indent)

/-- A plain scalar of words on lines that are indented by at least `indent`. -/
def readPlain (flow : Bool) (indent : Int) (cs : List Char) : Plain :=
  let (word, after) := readWord flow cs
  let gap := readPlainGap after
  if gap.closes flow indent || endsWord flow gap.rest then ⟨word, gap.crosses, gap.rest⟩
  else if gap.rest.length < cs.length then
    let more := readPlain flow indent gap.rest
    { more with text := word ++ gap.text ++ more.text }
  else ⟨word, gap.crosses, gap.rest⟩
termination_by cs.length

end Rehearsal.Yaml
