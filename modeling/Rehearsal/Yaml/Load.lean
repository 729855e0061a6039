import Rehearsal.Value.Equality
import Rehearsal.Yaml.Node
import Rehearsal.Yaml.Token.Layout

/-! The values of YAML texts. -/

namespace Rehearsal.Yaml
set_option autoImplicit false
open Rehearsal.Number Rehearsal.Text

/-- Why a text has no value. -/
inductive LoadError where
  | malformed (f : Flaw)
  /-- A scalar that its tag has no value for. -/
  | fault (f : Fault)

abbrev Loaded (α : Type) := Except LoadError α

def malformed {α : Type} (f : Flaw) : Loaded α := .error (.malformed f)

def raised {α : Type} (kind message : String) : Loaded α := .error (.fault (.ofKind kind message))

def ofFault {α : Type} : Except Fault α → Loaded α
  | .ok a => .ok a
  | .error f => .error (.fault f)

def ofNumber {α : Type} : Except NumberError α → Loaded α
  | .ok a => .ok a
  | .error e => .error (.fault (.number e))

/-! ### Merging

The entries of a mapping under the key `<<` are taken over into the mapping around it, in front of its
own. -/

abbrev Split := List (Node × Node) × List (Node × Node)

def joined (s : Split) : List (Node × Node) := s.1 ++ s.2

/-- The entries of mappings in a list, those of the last one first. -/
def mergedItems : List Node → Except Flaw (List (Node × Node))
  | [] => .ok []
  | .mapping _ entries :: ns => (mergedItems ns).map (· ++ entries)
  | _ :: _ => .error .badMerge

/-- The entries that a value under `<<` brings in. -/
def mergedFrom : Node → Except Flaw (List (Node × Node))
  | .mapping _ entries => .ok entries
  | .sequence _ items => mergedItems items
  | .scalar .. => .error .badMerge

/-- A key of a single `=` is a text. -/
def plainKey : Node → Node
  | .scalar t text => if t == knownTag "value" then .scalar (knownTag "str") text else .scalar t text
  | n => n

def splitEntries : List (Node × Node) → Except Flaw Split
  | [] => .ok ([], [])
  | (k, v) :: es => do
    let (taken, own) ← splitEntries es
    if k.tag == knownTag "merge" then return ((← mergedFrom v) ++ taken, own)
    else return (taken, (plainKey k, v) :: own)

mutual

/-- The node with the entries of merged mappings in their places. -/
def merge : Node → Except Flaw Node
  | .scalar t text => .ok (.scalar t text)
  | .sequence t items => (mergeItems items).map (.sequence t)
  | .mapping t entries => do
    let es ← mergeEntries entries
    if t == knownTag "map" || t == knownTag "set" then
      return .mapping t (joined (← splitEntries es))
    else return .mapping t es

def mergeItems : List Node → Except Flaw (List Node)
  | [] => .ok []
  | n :: ns => do return (← merge n) :: (← mergeItems ns)

def mergeEntries : List (Node × Node) → Except Flaw (List (Node × Node))
  | [] => .ok []
  | (k, v) :: es => do return (← merge k, ← merge v) :: (← mergeEntries es)

end

/-! ### Scalars -/

def withoutBars (s : String) : String := String.ofList (s.toList.filter (· != '_'))

/-- Takes the sign off a number: is it a minus? A number has at least one character. -/
def splitSign (s : String) : Loaded (Bool × String) :=
  match s.toList with
  | [] => .error (.fault (.shape (.outOfRange "string")))
  | '-' :: cs => .ok (true, String.ofList cs)
  | '+' :: cs => .ok (false, String.ofList cs)
  | cs => .ok (false, String.ofList cs)

/-- The letter that may follow a zero to announce a base. -/
def baseLetter : Nat → Char
  | 2 => 'b'
  | 8 => 'o'
  | _ => 'x'

def withoutBase (base : Nat) : List Char → List Char
  | '0' :: c :: cs => if c.toLower == baseLetter base then cs else '0' :: c :: cs
  | cs => cs

/-- The number that digits of a base spell, with a sign or the base announced in front or neither;
spacing around them does not count. -/
def readBase (base : Nat) (s : String) : Loaded Int :=
  let (negative, cs) := readSign (trimSpacing s.toList)
  let cs := withoutBase base cs
  let digits := cs.filterMap fun c => (hexValue? c).filter (· < base)
  if cs.isEmpty || digits.length != cs.length then
    raised "ValueError" s!"invalid literal for int() with base {base}: {quoted s}"
  else .ok (applySign negative (digits.foldl (fun n d => base * n + d) 0))

/-- A number of sixtieths: the parts between colons count sixty times as much as the ones behind. -/
def sexagesimal (parts : List Int) : Int := parts.foldl (fun n d => 60 * n + d) 0

def textParts (s : String) : List String := (parts ':' s.toList).map String.ofList

def readMagnitude (s : String) : Loaded Int :=
  match s.toList with
  | [] => .error (.fault (.shape (.outOfRange "string")))
  | ['0'] => .ok 0
  | '0' :: 'b' :: ds => readBase 2 (String.ofList ds)
  | '0' :: 'x' :: ds => readBase 16 (String.ofList ds)
  | '0' :: ds => readBase 8 (String.ofList ('0' :: ds))
  | cs =>
    if cs.contains ':' then
      ((textParts s).mapM fun p => ofNumber (readInt p)).map sexagesimal
    else ofNumber (readInt s)

def readInteger (s : String) : Loaded Value := do
  let (negative, magnitude) ← splitSign (withoutBars s)
  let n ← readMagnitude magnitude
  return .int (if negative then -n else n)

/-- The parts of a float of sixtieths, the last one first, with what one of them counts. -/
def sexagesimalFloat : (unit : Float) → List Float → Float → Float
  | _, [], sum => sum
  | unit, d :: ds, sum => sexagesimalFloat (unit * 60) ds (sum + d * unit)

def readFloatMagnitude (s : String) : Loaded Float :=
  if s == ".inf" then .ok (1 / 0)
  else if s == ".nan" then .ok (0 / 0)
  else if s.toList.contains ':' then do
    let ds ← (textParts s).mapM fun p => ofNumber (readFloat p)
    return sexagesimalFloat 1 ds.reverse 0
  else ofNumber (readFloat s)

def readFloatText (s : String) : Loaded Value := do
  let (negative, magnitude) ← splitSign (String.ofList ((withoutBars s).toList.map Char.toLower))
  let x ← readFloatMagnitude magnitude
  return .float (if negative then -x else x)

def readBool (s : String) : Loaded Value :=
  let word := String.ofList (s.toList.map Char.toLower)
  if ["yes", "true", "on"].contains word then .ok (.bool true)
  else if ["no", "false", "off"].contains word then .ok (.bool false)
  else raised "KeyError" (quoted word)

def readMoment (s : String) : Loaded Value :=
  match Moment.read? s with
  | some m => ofFault m.toValue
  | none => .error (.fault (.shape (.noMember "NoneType" "groupdict")))

def scalarValue (tag text : String) : Loaded Value :=
  if tag == knownTag "str" then .ok (.text text)
  else if tag == knownTag "null" then .ok .null
  else if tag == knownTag "bool" then readBool text
  else if tag == knownTag "int" then readInteger text
  else if tag == knownTag "float" then readFloatText text
  else if tag == knownTag "timestamp" then readMoment text
  else if tag == knownTag "binary" then .ok (.object "bytes" 1)
  else if ["seq", "map", "set", "omap", "pairs"].any fun kind => tag == knownTag kind then
    malformed .wrongKind
  else malformed .unknownTag

def scalarTags : List String :=
  ["str", "null", "bool", "int", "float", "timestamp", "binary"].map knownTag

/-! ### Collections -/

/-- Puts a value under a key; a key that is there keeps its place. -/
def putEntry (k v : Value) : List (Value × Value) → List (Value × Value)
  | [] => [(k, v)]
  | e :: es => if e.1.sameKey k then (e.1, v) :: es else e :: putEntry k v es

def isKey : Value → Bool
  | .object kind _ => kind != "set"
  | v => v.hashable

/-- The scalar that a mapping with a key `=` stands for where a scalar is wanted. -/
def scalarUnder : List (Node × Node) → Option String
  | [] => none
  | (k, .scalar _ text) :: es => if k.tag == knownTag "value" then some text else scalarUnder es
  | (k, _) :: es => if k.tag == knownTag "value" then none else scalarUnder es

def dictOf : List (Value × Value) → List (Value × Value) → Loaded (List (Value × Value))
  | [], done => .ok done
  | (k, v) :: es, done =>
    if isKey k then dictOf es (putEntry k v done) else malformed .unhashableKey

def mappingValue (tag : String) (values : List (Value × Value)) : Loaded Value := do
  if tag == knownTag "map" then return .dict (← dictOf values [])
  else if tag == knownTag "set" then
    let _ ← dictOf values []
    return .object "set" 1
  else if ["seq", "omap", "pairs"].any fun kind => tag == knownTag kind then malformed .wrongKind
  else malformed .unknownTag

def pairOf : Value → Loaded Value
  | .dict [(k, v)] => .ok (.list [k, v])
  | _ => malformed .wrongKind

def sequenceValue (tag : String) (items : List Value) : Loaded Value := do
  if tag == knownTag "seq" then return .list items
  else if tag == knownTag "omap" || tag == knownTag "pairs" then
    return .list (← items.mapM pairOf)
  else if scalarTags.contains tag || tag == knownTag "map" || tag == knownTag "set" then
    malformed .wrongKind
  else malformed .unknownTag

mutual

def valueOf : Node → Loaded Value
  | .scalar tag text => scalarValue tag text
  | .sequence tag items => do sequenceValue tag (← valuesOf items)
  | .mapping tag entries =>
    if scalarTags.contains tag then
      match scalarUnder entries with
      | some text => scalarValue tag text
      | none => malformed .wrongKind
    else do mappingValue tag (← entriesOf entries)

def valuesOf : List Node → Loaded (List Value)
  | [] => .ok []
  | n :: ns => do return (← valueOf n) :: (← valuesOf ns)

def entriesOf : List (Node × Node) → Loaded (List (Value × Value))
  | [] => .ok []
  | (k, v) :: es => do return (← valueOf k, ← valueOf v) :: (← entriesOf es)

end

/-! ### Texts -/

def ofFlaw {α : Type} : Except Flaw α → Loaded α
  | .ok a => .ok a
  | .error f => malformed f

def isSmall (n : Nat) : Bool := n < 2147483648

def tokensOf (s : String) : Loaded (List Token) :=
  match Token.ofText s with
  | .ok ts => .ok ts
  | .error (.flaw f) => malformed f
  | .error (.noCharacter code) =>
    if isSmall code then raised "ValueError" "chr() arg not in range(0x110000)"
    else raised "OverflowError" "Python int too large to convert to C int"

/-- The value of the document in a text; a text without one is null. -/
def load (s : String) : Loaded Value := do
  match ← ofFlaw (Node.ofTokens? (← tokensOf s)) with
  | none => return .null
  | some n => valueOf (← ofFlaw (merge n))

end Rehearsal.Yaml
