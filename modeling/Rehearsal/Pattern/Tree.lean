/-! Patterns as trees. A pattern is a sequence of nodes; characters are given by code point. -/

namespace Rehearsal.Pattern
set_option autoImplicit false

/-- How letters are compared, what counts as a line and how a pattern is written. -/
structure Flags where
  ignoreCase : Bool := false
  multiline : Bool := false
  dotAll : Bool := false
  verbose : Bool := false
  ascii : Bool := false
  unicode : Bool := false
  template : Bool := false
deriving DecidableEq, Repr

namespace Flags

def none : Flags := {}

def union (a b : Flags) : Flags :=
  ⟨a.ignoreCase || b.ignoreCase, a.multiline || b.multiline, a.dotAll || b.dotAll,
    a.verbose || b.verbose, a.ascii || b.ascii, a.unicode || b.unicode, a.template || b.template⟩

def overlaps (a b : Flags) : Bool :=
  (a.ignoreCase && b.ignoreCase) || (a.multiline && b.multiline) || (a.dotAll && b.dotAll) ||
    (a.verbose && b.verbose) || (a.ascii && b.ascii) || (a.unicode && b.unicode) ||
    (a.template && b.template)

def isEmpty (f : Flags) : Bool := f == none

/-- The alphabet is one choice: the flag that is turned on last replaces the other. -/
def within (f added removed : Flags) : Flags :=
  let alphabet := added.ascii || added.unicode
  { ignoreCase := (f.ignoreCase || added.ignoreCase) && !removed.ignoreCase
    multiline := (f.multiline || added.multiline) && !removed.multiline
    dotAll := (f.dotAll || added.dotAll) && !removed.dotAll
    verbose := (f.verbose || added.verbose) && !removed.verbose
    ascii := added.ascii || (f.ascii && !alphabet)
    unicode := added.unicode || (f.unicode && !alphabet)
    template := f.template }

end Flags

inductive Category where
  | digit | space | word
deriving DecidableEq, Repr

inductive SetItem where
  | one (code : Nat)
  | range (low high : Nat)
  | category (c : Category) (negated : Bool)
deriving DecidableEq, Repr

inductive Anchor where
  | start | stop | textStart | textStop | boundary | noBoundary
deriving DecidableEq, Repr

inductive Greed where
  | greedy | lazy | possessive
deriving DecidableEq, Repr

inductive Node where
  | one (code : Nat)
  | other (code : Nat)
  | any
  | set (negated : Bool) (items : List SetItem)
  | anchor (a : Anchor)
  | loop (greed : Greed) (least : Nat) (most : Option Nat) (body : List Node)
  | group (id : Option Nat) (added removed : Flags) (body : List Node)
  | atomic (body : List Node)
  | choice (branches : List (List Node))
  /-- `behind` holds the least and the largest width of a body that is matched backwards. -/
  | look (behind : Option (Nat × Nat)) (negated : Bool) (body : List Node)
  | backref (id : Nat)
  | conditional (id : Nat) (yes : List Node) (no : Option (List Node))
deriving Inhabited

namespace Node

def isAnchor : Node → Bool
  | anchor _ => true
  | _ => false

def isLoop : Node → Bool
  | loop .. => true
  | _ => false

def plainBody? : Node → Option (List Node)
  | group Option.none added removed body =>
    if added.isEmpty && removed.isEmpty then some body else Option.none
  | _ => Option.none

end Node

def widthLimit : Nat := 18446744073709551616

mutual

/-- The least and the largest number of characters that a node takes, given those of the groups. -/
def Node.width (groups : Nat → Nat × Nat) : Node → Nat × Nat
  | .one _ | .other _ | .any | .set .. => (1, 1)
  | .anchor _ | .look .. => (0, 0)
  | .loop _ least most body =>
    let (lo, hi) := seqWidth groups body
    match most with
    | some m => (lo * least, hi * m)
    | none => (lo * least, if hi == 0 then 0 else widthLimit)
  | .group _ _ _ body | .atomic body => seqWidth groups body
  | .choice branches => choiceWidth groups branches
  | .backref id => groups id
  | .conditional _ yes no =>
    let (lo, hi) := seqWidth groups yes
    match no with
    | some no =>
      let (lo', hi') := seqWidth groups no
      (min lo lo', max hi hi')
    | none => (0, hi)

def seqWidth (groups : Nat → Nat × Nat) : List Node → Nat × Nat
  | [] => (0, 0)
  | n :: ns =>
    let (lo, hi) := n.width groups
    let (lo', hi') := seqWidth groups ns
    (min (lo + lo') widthLimit, min (hi + hi') widthLimit)

def choiceWidth (groups : Nat → Nat × Nat) : List (List Node) → Nat × Nat
  | [] => (widthLimit, 0)
  | b :: bs =>
    let (lo, hi) := seqWidth groups b
    let (lo', hi') := choiceWidth groups bs
    (min lo lo', max hi hi')

end

end Rehearsal.Pattern
