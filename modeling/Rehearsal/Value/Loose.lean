import Rehearsal.Fault

/-! Loosely typed data taken apart: iteration, unpacking and the entries of a mapping. -/

namespace Rehearsal.Value
set_option autoImplicit false

def iterate : Value → Except Fault (List Value)
  | list items => .ok items
  | text s => .ok (s.toList.map fun c => text (String.singleton c))
  | dict entries => .ok (entries.map (·.1))
  | v => .error (.shape (.notIterable v.kindName))

/-- The items of a set made from a value. -/
def setItems (v : Value) : Except Fault (List Value) := do
  let items ← v.iterate
  match items.find? (!·.hashable) with
  | some item => throw (.shape (.unhashable item.kindName))
  | none => return items

def pair (v : Value) : Except Fault (Value × Value) :=
  match v.iterate with
  | .error _ => .error (.shape (.notUnpackable v.kindName))
  | .ok [a, b] => .ok (a, b)
  | .ok items =>
    if items.length < 2 then .error (.shape (.tooFewItems 2 items.length))
    else .error (.shape (.tooManyItems 2))

/-- Puts an entry into a mapping: a key that is there keeps its place. -/
def putEntry (entries : List (Value × Value)) (same : Value → Value → Bool) (k v : Value) :
    List (Value × Value) :=
  if entries.any fun e => same e.1 k then
    entries.map fun e => if same e.1 k then (e.1, v) else e
  else entries ++ [(k, v)]

/-- The entry that an item of a list of pairs stands for. -/
def entryOf (index : Nat) (item : Value) : Except Fault (Value × Value) :=
  match item.iterate with
  | .error _ => .error (.shape (.notPair index))
  | .ok [k, v] => if k.hashable then .ok (k, v) else .error (.shape (.unhashable k.kindName))
  | .ok items => .error (.shape (.pairLength index items.length))

def entriesFrom (same : Value → Value → Bool) :
    (index : Nat) → List Value → List (Value × Value) → Except Fault (List (Value × Value))
  | _, [], acc => .ok acc
  | index, item :: items, acc => do
    let (k, v) ← entryOf index item
    entriesFrom same (index + 1) items (putEntry acc same k v)

/-- The entries of a mapping made from a mapping or from pairs. -/
def toEntries (same : Value → Value → Bool) : Value → Except Fault (List (Value × Value))
  | dict entries => .ok entries
  | v => do entriesFrom same 0 (← v.iterate) []

end Rehearsal.Value
