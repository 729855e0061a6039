import Rehearsal.Report.Sink
import Rehearsal.Run.Request
import Rehearsal.Script.Host

/-! The world of a rehearsal: what scripts change, what they note down, and where records and
messages go. -/

namespace Rehearsal.Script
set_option autoImplicit false

/-- What a parameter of a script holds. -/
inductive Subject where
  | value (v : Value)
  | scope (s : Scope)
  | contextClass (id : Nat)
  | many (items : List Subject)
  | named (items : List (String × Subject))
deriving Inhabited

namespace Subject

def null : Subject := value .null

def kindName : Subject → String
  | value v => v.kindName
  | scope s => s.kindName
  | contextClass _ => "type"
  | many _ => "tuple"
  | named _ => "dict"

mutual

/-- The subject as a value, with objects by their classes. -/
def toValue : Subject → Value
  | value v => v
  | scope s => .object s.kindName 0
  | contextClass _ => .object "type" 0
  | many items => .list (toValues items)
  | named items => .dict (toEntries items)

def toValues : List Subject → List Value
  | [] => []
  | s :: ss => toValue s :: toValues ss

def toEntries : List (String × Subject) → List (Value × Value)
  | [] => []
  | (k, s) :: es => (.text k, toValue s) :: toEntries es

end

def scope? : Subject → Option Scope
  | scope s => some s
  | _ => none

end Subject

/-- What scripts note down. -/
inductive Note where
  | text (v : Value)
  | who (kind : String) (node : Option Nat)
  | args (values : List Value)
  | scope (s : Subject)
  | got (key : String) (v : Value)
  | visited (how kind : String)

/-- The attributes of an instance of a class. -/
structure Cell where
  cls : Nat
  attributes : List (String × Value)

/-- A trap for records: it raises a fault at a record whose fields have given values. -/
structure Trap where
  fields : List (String × Value)
  /-- The one of the matching records at which it snaps; without a number it snaps at each. -/
  nth : Option Int
  fault : Fault
  hits : Nat

/-- Where records go. -/
inductive RecordOutlet where
  | nowhere
  /-- Kept, with the events of stages or without, behind a trap. -/
  | kept (stages : Bool) (trap : Option Trap)
  | memory (s : MemorySink)
  | printed (stages : Bool)
  | file (path : String) (s : FileSink)

/-- Where messages go. -/
inductive MessageOutlet where
  | nowhere
  | kept
  | printed
  | file (path : String) (closed : Bool)

structure World where
  /-- The instances; the id of one is its position counted from one. -/
  cells : Array Cell
  /-- What was set on classes. -/
  classAttributes : List (Nat × String × Value)
  /-- The places of instances in arenas. -/
  places : List (Nat × Arena × Nat)
  /-- How often each callee was called. -/
  counts : List (Nat × Nat)
  notes : List Note
  signal : AbortSignal
  /-- The texts of steps whose ties were told of. -/
  tied : List String
  recordOutlet : RecordOutlet
  messageOutlet : MessageOutlet
  records : List Record
  messages : List LogMessage
  flushes : Nat
  /-- Were the outlets closed? -/
  closed : Bool
  /-- What was printed. -/
  output : String
  /-- The files by their paths, with their lines. -/
  files : List (String × List String)

namespace World

def start : World where
  cells := #[]
  classAttributes := []
  places := []
  counts := []
  notes := []
  signal := .clear
  tied := []
  recordOutlet := .nowhere
  messageOutlet := .nowhere
  records := []
  messages := []
  flushes := 0
  closed := false
  output := ""
  files := []

def cell? (w : World) (id : Nat) : Option Cell := if id == 0 then none else w.cells[id - 1]?

def cellOf? (w : World) : Value → Option Cell
  | .object _ id => w.cell? id
  | _ => none

def note (w : World) (n : Note) : World := { w with notes := w.notes ++ [n] }

def create (w : World) (cls : Nat) (name : String) : Value × World :=
  (.object name (w.cells.size + 1), { w with cells := w.cells.push ⟨cls, []⟩ })

def putAttribute (attributes : List (String × Value)) (key : String) (v : Value) :
    List (String × Value) :=
  if attributes.any (·.1 == key) then
    attributes.map fun e => if e.1 == key then (key, v) else e
  else attributes ++ [(key, v)]

def setAttribute (w : World) (id : Nat) (key : String) (v : Value) : World :=
  match w.cell? id with
  | some c =>
    { w with
      cells := w.cells.setIfInBounds (id - 1)
        { c with attributes := putAttribute c.attributes key v } }
  | none => w

def countOf (w : World) (callee : Nat) : Nat :=
  ((w.counts.find? (·.1 == callee)).map (·.2)).getD 0

def countCall (w : World) (callee : Nat) : World :=
  { w with counts := (callee, w.countOf callee + 1) :: w.counts.filter (·.1 != callee) }

def placeOf? (w : World) (id : Nat) : Option (Arena × Nat) :=
  (w.places.find? (·.1 == id)).map (·.2)

/-- What the instance of a node is told, if it is one of a context that knows its place. -/
def told? (a : Arena) (n : Node × Nat) : Option (Nat × Arena × Nat) :=
  match n.1.inst.value with
  | .object _ id => if n.1.inst.lineage.contains behaviourClass then some (id, a, n.2) else none
  | _ => none

/-- Tells the contexts of an arena that know their place where they are, one after the other. An instance
that stands at two places knows the later one. -/
def attach (w : World) (a : Arena) : World :=
  let fresh := a.numbered.reverse.filterMap (told? a)
  { w with places := fresh ++ w.places.filter fun p => !fresh.any (·.1 == p.1) }

/-- Takes the places of contexts away, as when their arena is gone. -/
def detach (w : World) : World := { w with places := [] }

def print (w : World) (s : String) : World := { w with output := w.output ++ s }

def fileLines (w : World) (path : String) : Option (List String) :=
  (w.files.find? (·.1 == path)).map (·.2)

/-- Adds lines to a file, which is there afterwards in any case. -/
def appendLines (w : World) (path : String) (lines : List String) : World :=
  match w.fileLines path with
  | some _ =>
    { w with
      files := w.files.map fun f => if f.1 == path then (path, f.2 ++ lines) else f }
  | none => { w with files := w.files ++ [(path, lines)] }

/-- A file sink after a change: what is new in its file is added to the file of the world. -/
def updateFile (w : World) (path : String) (before after : FileSink) : World :=
  { w.appendLines path (after.flushed.drop before.flushed.length) with
    recordOutlet := .file path after }

end World

namespace Trap

/-- Do the fields of a record have the values that the trap waits for? -/
def matchesRecord (t : Trap) (r : Record) : Bool :=
  let j := Report.ofRecord r
  t.fields.all fun (name, v) =>
    (((j.field? name).map Value.ofJson).getD .null).same v

/-- The trap after a record, and the fault if it snapped. -/
def meet (t : Trap) (r : Record) : Trap × Option Fault :=
  if t.matchesRecord r then
    let t := { t with hits := t.hits + 1 }
    match t.nth with
    | none => (t, some t.fault)
    | some n => (t, if n == t.hits then some t.fault else none)
  else (t, none)

end Trap

namespace World

def emit (w : World) (r : Record) : Option Fault × World :=
  match w.recordOutlet with
  | .nowhere => (none, w)
  | .kept stages trap =>
    let w := if r.accepted stages then { w with records := w.records ++ [r] } else w
    match trap with
    | none => (none, w)
    | some t =>
      let (t, fault) := t.meet r
      (fault, { w with recordOutlet := .kept stages (some t) })
  | .memory s =>
    let s := s.emit r
    (none, { w with recordOutlet := .memory s, records := s.records })
  | .printed stages => (none, w.print (printed stages r))
  | .file path s =>
    let (after, fault) := s.emit r
    (fault, w.updateFile path s after)

def flush (w : World) : Option Fault × World :=
  let w := { w with flushes := w.flushes + 1 }
  match w.recordOutlet with
  | .file path s =>
    let (after, fault) := s.flush
    (fault, w.updateFile path s after)
  | _ => (none, w)

def log (w : World) (m : LogMessage) : Option Fault × World :=
  match w.messageOutlet with
  | .nowhere => (none, w)
  | .kept => (none, { w with messages := w.messages ++ [m] })
  | .printed => (none, w.print (m.line ++ "\n"))
  | .file path closed =>
    if closed then (some .closedFile, w)
    else if Text.hasSurrogate m.line then (some (.encoding m.line), w)
    else (none, w.appendLines path [m.line])

def close (w : World) : Option Fault × World :=
  let w := { w with closed := true }
  let (fault, w) :=
    match w.recordOutlet with
    | .memory s => (none, { w with recordOutlet := .memory s.close })
    | .file path s =>
      let (after, fault) := s.close
      (fault, w.updateFile path s after)
    | _ => (none, w)
  match fault, w.messageOutlet with
  | none, .file path _ => (none, { w with messageOutlet := .file path true })
  | _, _ => (fault, w)

end World
end Rehearsal.Script
