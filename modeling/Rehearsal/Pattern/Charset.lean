import Rehearsal.Pattern.Tree
import Rehearsal.Text.Blank
import Rehearsal.Text.Case
import Rehearsal.Text.Word

/-! Which characters a one-character node takes. When case is ignored the character is lowered first,
and an element stands for every letter that is lowered to the same letter or to another form of it. -/

namespace Rehearsal.Pattern
set_option autoImplicit false
open Rehearsal.Text

/-- Lower case in the alphabet that the flags choose. -/
def foldCase (flags : Flags) (c : Char) : Char := if flags.ascii then c.toLower else lower c

def Category.holds (flags : Flags) (c : Char) : Category → Bool
  | .digit => if flags.ascii then c.isDigit else isDigit c
  | .space =>
    if flags.ascii then c == ' ' || (9 ≤ c.toNat && c.toNat ≤ 13) else isBlank c
  | .word => if flags.ascii then c.toNat < 128 && isWord c else isWord c

/-- Is the lowered character `n` a form of the letter `code`? -/
def foldsTo (flags : Flags) (code n : Nat) : Bool :=
  let base := foldCase flags (Char.ofNat code)
  if flags.ascii then base.toNat == n || code == n else (letterForms base).contains n

/-- Does a range hold a letter that is lowered to a form of `n`? -/
def rangeFolds (flags : Flags) (low high n : Nat) : Bool :=
  let sources :=
    if flags.ascii then
      n :: (if (Char.ofNat n).isLower && n < 128 then [n - 32] else [])
    else (letterForms (Char.ofNat n)).flatMap loweredTo
  sources.any fun m => low ≤ m && m ≤ high && m < 0x10000

def SetItem.holds (flags : Flags) (c : Char) : SetItem → Bool
  | .one code => c.toNat == code
  | .range low high => low ≤ c.toNat && c.toNat ≤ high
  | .category cat negated => cat.holds flags c != negated

/-- Does an item hold the lowered character `c` when case is ignored? Beyond the first `2^16` code
points an element stands for itself alone, and a range for its letters and their capitals. -/
def SetItem.holdsFolded (flags : Flags) (c : Char) : SetItem → Bool
  | .one code => if code < 0x10000 then foldsTo flags code c.toNat else code == c.toNat
  | .range low high =>
    rangeFolds flags low high c.toNat ||
      (0x10000 ≤ high &&
        ((low ≤ c.toNat && c.toNat ≤ high) ||
          (low ≤ (upperChar c).toNat && (upperChar c).toNat ≤ high)))
  | .category cat negated => cat.holds flags c != negated

def inSet (flags : Flags) (items : List SetItem) (c : Char) : Bool :=
  if flags.ignoreCase then items.any (·.holdsFolded flags (foldCase flags c))
  else items.any (·.holds flags c)

def isOne (flags : Flags) (code : Nat) (c : Char) : Bool :=
  if flags.ignoreCase then foldsTo flags code (foldCase flags c).toNat else c.toNat == code

/-- The test of a node that takes one character. -/
def Node.test? (flags : Flags) : Node → Option (Char → Bool)
  | .one code => some (isOne flags code)
  | .other code => some fun c => !isOne flags code c
  | .any => some fun c => flags.dotAll || c != '\n'
  | .set negated items => some fun c => inSet flags items c != negated
  | _ => none

end Rehearsal.Pattern
