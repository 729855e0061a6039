/-! The characters of a YAML text. Line feed, next line, line separator and paragraph separator end a
line; carriage returns are taken out before a text is read. -/

namespace Rehearsal.Yaml
set_option autoImplicit false

/-- What makes a text no YAML document, or no document with a value. -/
inductive Flaw where
  | unprintable
  | strayCharacter
  | missingColon
  | entryNotAllowed
  | keyNotAllowed
  | valueNotAllowed
  | badDirective
  | badName
  | badTag
  | badEscape
  | badHeader
  | unclosedQuote
  | unexpectedToken
  | severalDocuments
  | unknownHandle
  | unknownAnchor
  | repeatedAnchor
  | unknownTag
  | wrongKind
  | badMerge
  | unhashableKey
deriving DecidableEq, Repr

def isBreak (c : Char) : Bool :=
  c == '\n' || c == '\u0085' || c == '\u2028' || c == '\u2029'

/-- The character that stands for a line end in a scalar. -/
def breakText (c : Char) : Char := if c == '\u2028' || c == '\u2029' then c else '\n'

def isBlank (c : Char) : Bool := c == ' ' || c == '\t'

def isGap (c : Char) : Bool := isBlank c || isBreak c

def atGap : List Char → Bool
  | [] => true
  | c :: _ => isGap c

/-- Is a word over here that no tab may end? -/
def atSpace : List Char → Bool
  | [] => true
  | c :: _ => c == ' ' || isBreak c

/-- Does a line start here that starts or ends a document? -/
def atMarker : List Char → Bool
  | '-' :: '-' :: '-' :: cs => atGap cs
  | '.' :: '.' :: '.' :: cs => atGap cs
  | _ => false

def isPrintable (c : Char) : Bool :=
  let n := c.toNat
  n == 9 || n == 10 || (0x20 ≤ n && n ≤ 0x7E) || n == 0x85 || (0xA0 ≤ n && n ≤ 0xFFFD) ||
    0x10000 ≤ n

/-- Line feeds in the place of carriage returns, and of carriage returns with line feeds. -/
def lineFeeds : List Char → List Char
  | [] => []
  | '\r' :: '\n' :: cs => '\n' :: lineFeeds cs
  | '\r' :: cs => '\n' :: lineFeeds cs
  | c :: cs => c :: lineFeeds cs

def byteOrderMark : Char := '\uFEFF'

def isNameChar (c : Char) : Bool := c.isAlphanum || c == '-' || c == '_'

/-- The rest of a line's comment, if there is one, and then the end of the line. -/
def restOfLine? (cs : List Char) : Option (List Char) :=
  match cs.dropWhile (· == ' ') with
  | [] => some []
  | '#' :: cs => some ((cs.dropWhile fun c => !isBreak c).drop 1)
  | c :: cs => if isBreak c then some cs else none

theorem length_lt_of_dropWhile {p : Char → Bool} {cs rest : List Char} {c : Char}
    (h : cs.dropWhile p = c :: rest) : rest.length < cs.length := by
  have := (List.dropWhile_sublist p (l := cs)).length_le
  rw [h, List.length_cons] at this
  omega

end Rehearsal.Yaml
