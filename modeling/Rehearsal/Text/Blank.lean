/-! White space and lines. A text is freed of white space at its ends. A line of it ends at a line feed, a
carriage return, both in this order, or one of the other characters that separate lines. -/

namespace Rehearsal.Text
set_option autoImplicit false

/-- White space: tab to carriage return, the four information separators, the space, next line and
every space, line and paragraph separator. -/
def isBlank (c : Char) : Bool :=
  let n := c.toNat
  (9 ≤ n && n ≤ 13) || (28 ≤ n && n ≤ 32) || n == 0x85 || n == 0xA0 || n == 0x1680 ||
    (0x2000 ≤ n && n ≤ 0x200A) || n == 0x2028 || n == 0x2029 || n == 0x202F || n == 0x205F ||
    n == 0x3000

def trimLeft (cs : List Char) : List Char := cs.dropWhile isBlank

def trimRight (cs : List Char) : List Char := (trimLeft cs.reverse).reverse

/-- The text without the white space at its two ends. -/
def trim (cs : List Char) : List Char := trimRight (trimLeft cs)

def strip (s : String) : String := String.ofList (trim s.toList)

/-- White space that may stand around a number: the information separators may not. -/
def isSpacing (c : Char) : Bool := isBlank c && !(28 ≤ c.toNat && c.toNat ≤ 31)

/-- The text without the spacing at its two ends. -/
def trimSpacing (cs : List Char) : List Char :=
  ((cs.dropWhile isSpacing).reverse.dropWhile isSpacing).reverse

def isLineEnd (c : Char) : Bool :=
  let n := c.toNat
  (10 ≤ n && n ≤ 13) || (28 ≤ n && n ≤ 30) || n == 0x85 || n == 0x2028 || n == 0x2029

def growFirst (c : Char) : List (List Char) → List (List Char)
  | [] => [[c]]
  | l :: ls => (c :: l) :: ls

def lineList : List Char → List (List Char)
  | [] => []
  | '\r' :: '\n' :: cs => [] :: lineList cs
  | c :: cs => if isLineEnd c then [] :: lineList cs else growFirst c (lineList cs)

/-- The lines of a text, without what ends them. -/
def splitLines (s : String) : List String := (lineList s.toList).map String.ofList

end Rehearsal.Text
