import Rehearsal.Text.Blank
import Rehearsal.Value.Loose

/-! Tags and tag filters. A tag is compared without the leading `@`. A filter is a conjunction of
disjunctions: `@a,@b&&~@c` asks for `a` or `b`, and not `c`. -/

namespace Rehearsal
set_option autoImplicit false
open Rehearsal.Text

namespace Tag

/-- The text without white space at its ends and without one leading `@`. -/
def bare (cs : List Char) : List Char :=
  match trim cs with
  | '@' :: cs => cs
  | cs => cs

def normalize (s : String) : Except Fault String :=
  match bare s.toList with
  | [] => .error .blankTag
  | cs => .ok (String.ofList cs)

def ofValue : Value → Except Fault String
  | .text s => normalize s
  | v => .error (.shape (.noMember v.kindName "strip"))

def setOfValue (v : Value) : Except Fault (List String) := do
  (← v.iterate).mapM ofValue

end Tag

/-- Strings in ascending order of code points, each once. -/
def sortedSet (xs : List String) : List String :=
  (xs.eraseDups).mergeSort fun a b => decide (a ≤ b)

structure TagTerm where
  tag : String
  negated : Bool
deriving DecidableEq, Repr

def TagTerm.holds (t : TagTerm) (tags : List String) : Bool := tags.contains t.tag != t.negated

structure TagFilter where
  source : String
  clauses : List (List TagTerm)
deriving DecidableEq, Repr

namespace TagFilter

def splitClauses : List Char → List (List Char)
  | [] => [[]]
  | '&' :: '&' :: cs => [] :: splitClauses cs
  | c :: cs =>
    match splitClauses cs with
    | p :: ps => (c :: p) :: ps
    | [] => [[c]]

def splitTerms : List Char → List (List Char)
  | [] => [[]]
  | c :: cs =>
    if c == ',' then [] :: splitTerms cs
    else
      match splitTerms cs with
      | p :: ps => (c :: p) :: ps
      | [] => [[c]]

def parseTerm (source : String) (piece : List Char) : Except Fault TagTerm :=
  match trim piece with
  | [] => .error (.blankTerm source)
  | '~' :: cs => (Tag.normalize (String.ofList cs)).map fun tag => ⟨tag, true⟩
  | cs => (Tag.normalize (String.ofList cs)).map fun tag => ⟨tag, false⟩

def parseClause (source : String) (piece : List Char) : Except Fault (List TagTerm) :=
  (splitTerms piece).mapM (parseTerm source)

def parse (source : String) : Except Fault TagFilter := do
  let clauses ← (splitClauses source.toList).mapM (parseClause source)
  return ⟨source, clauses⟩

def ofValue : Value → Except Fault TagFilter
  | .text s => parse s
  | v => .error (.shape (.noMember v.kindName "split"))

def holds (f : TagFilter) (active : List String) : Bool :=
  f.clauses.all fun clause => clause.any fun term => term.holds active

/-- The filter applied to texts of tags, which are normalized first. -/
def accepts (f : TagFilter) (tags : List String) : Except Fault Bool :=
  return f.holds (← tags.mapM Tag.normalize)

def acceptsValue (f : TagFilter) (tags : Value) : Except Fault Bool :=
  return f.holds (← Tag.setOfValue tags)

end TagFilter
end Rehearsal
