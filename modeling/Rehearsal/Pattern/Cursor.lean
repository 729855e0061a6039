import Rehearsal.Pattern.Tree
import Rehearsal.Pattern.Flaw

/-! The place reached in a pattern's text, read one token ahead. A token is a character, or a
backslash with the character after it. Beside the place the cursor keeps what is known of groups. -/

namespace Rehearsal.Pattern
set_option autoImplicit false

abbrev Token := List Char

structure Cursor where
  /-- Characters after the token ahead. -/
  rest : List Char
  /-- Index of the first of them. -/
  index : Nat
  ahead : Option Token
  flags : Flags
  names : List (String × Nat)
  /-- Widths of groups from number 0 on, once they are closed. -/
  widths : List (Option (Nat × Nat))
  /-- Number of groups when the outermost look-behind around the place was opened. -/
  lookBehind : Option Nat
  /-- Groups that conditions name by number, with the places of their first mention. -/
  mentioned : List (Nat × Nat)

namespace Cursor

def groups (c : Cursor) : Nat := c.widths.length

def width (c : Cursor) (id : Nat) : Nat × Nat := ((c.widths[id]?).join).getD (0, 0)

def isClosed (c : Cursor) (id : Nat) : Bool := ((c.widths[id]?).join).isSome

def position (c : Cursor) : Nat := c.index - (c.ahead.getD []).length

end Cursor

abbrev Reading := StateT Cursor (Except PatternError)

def fail {α : Type} (flaw : Flaw) (position : Nat) : Reading α :=
  throw (.malformed flaw (some position))

/-- Reports a flaw that shows `back` characters before the token ahead. -/
def failBack {α : Type} (flaw : Flaw) (back : Nat) : Reading α := do
  fail flaw ((← get).position - back)

/-- Takes the token ahead. A lone backslash at the end is found as soon as it comes into view. -/
def next : Reading (Option Token) := do
  let c ← get
  match c.rest with
  | [] => set { c with ahead := none }
  | '\\' :: [] => fail .danglingBackslash c.index
  | '\\' :: e :: rest => set { c with ahead := some ['\\', e], rest, index := c.index + 2 }
  | x :: rest => set { c with ahead := some [x], rest, index := c.index + 1 }
  return c.ahead

def ahead : Reading (Option Token) := return (← get).ahead

/-- Takes the token ahead if it is that character. -/
def accept (x : Char) : Reading Bool := do
  if (← get).ahead == some [x] then
    let _ ← next
    return true
  else return false

/-- Is the token ahead a single character of that class? -/
def aheadIs (p : Char → Bool) : Reading Bool := do
  match (← get).ahead with
  | some [x] => return p x
  | _ => return false

def takeUpTo (p : Char → Bool) : Nat → Reading (List Char)
  | 0 => return []
  | n + 1 => do
    if ← aheadIs p then
      let t ← next
      return t.getD [] ++ (← takeUpTo p n)
    else return []

/-- Takes the tokens up to a terminator, which is taken too. -/
def takeUntil (terminator : Char) (what : String) (taken : List Char) : Nat → Reading (List Char)
  | 0 => failBack (.missingName what) 0
  | fuel + 1 => do
    match ← next with
    | none =>
      if taken.isEmpty then failBack (.missingName what) 0
      else failBack (.unterminatedName (String.singleton terminator)) taken.length
    | some t =>
      if t == [terminator] then
        if taken.isEmpty then failBack (.missingName what) 1 else return taken
      else takeUntil terminator what (taken ++ t) fuel

def tokensLeft : Reading Nat := return (← get).rest.length + 2

end Rehearsal.Pattern
