import Rehearsal.Report.Log

/-! Sinks for records: one that keeps them, one that prints them, and one that writes them to a file,
a line each. -/

namespace Rehearsal
set_option autoImplicit false

def Record.line (r : Record) : String := (Report.ofRecord r).line

/-- Does a sink take a record? Events of stages may be left out. -/
def Record.accepted (stages : Bool) (r : Record) : Bool := stages || !r.isStage

/-- A sink that keeps records in the order of arrival. -/
structure MemorySink where
  stages : Bool
  records : List Record
  closed : Bool

namespace MemorySink

def emit (s : MemorySink) (r : Record) : MemorySink :=
  if r.accepted s.stages then { s with records := s.records ++ [r] } else s

def close (s : MemorySink) : MemorySink := { s with closed := true }

def ofKind (s : MemorySink) (kind : String) : List Record := s.records.filter (·.kind == kind)

end MemorySink

def printed (stages : Bool) (r : Record) : String :=
  if r.accepted stages then r.line ++ "\n" else ""

/-- How a file sink writes. -/
structure FileOptions where
  /-- Are lines collected and written together? -/
  batch : Bool
  /-- After how many records lines are written or flushed. -/
  every : Nat
  /-- After how many records everything written is forced to disk; never if there is no number. -/
  syncEvery : Option Int
  stages : Bool
  /-- Lines that the encoding of the file has no form for. -/
  refuses : String → Bool
  /-- The bytes that the file holds back before it takes them over unasked. -/
  held : Nat

namespace FileOptions

/-- What files hold back if nothing else is asked for. -/
def heldLimit : Nat := 8192

def standard : FileOptions := ⟨false, 1, none, true, fun _ => false, heldLimit⟩

def make (mode : String) (every : Int) (syncEvery : Option Int) (stages : Bool) : FileOptions :=
  ⟨mode == "batch", (max 1 every).toNat, syncEvery.filter (· != 0), stages, fun _ => false,
    heldLimit⟩

/-- The same for a file in UTF-8. -/
def utf8 (o : FileOptions) : FileOptions := { o with refuses := Text.hasSurrogate }

end FileOptions

/-- A sink that writes to a file. -/
structure FileSink where
  options : FileOptions
  /-- The number of records taken. -/
  taken : Nat
  /-- Lines collected for a batch. -/
  buffer : List String
  /-- Lines written, but not flushed to the file. -/
  unflushed : List String
  /-- Lines in the file. -/
  flushed : List String
  /-- The number of lines that were forced to disk. -/
  synced : Nat
  closed : Bool

namespace FileSink

def start (options : FileOptions) : FileSink := ⟨options, 0, [], [], [], 0, false⟩

def lineBytes (lines : List String) : Nat := lines.foldl (fun n l => n + l.utf8ByteSize + 1) 0

def spill (s : FileSink) : FileSink :=
  { s with unflushed := [], flushed := s.flushed ++ s.unflushed }

/-- Writes a line. What is held back makes room for a line that does not fit beside it. -/
def hold (s : FileSink) (line : String) : FileSink :=
  let s := if s.options.held < lineBytes (s.unflushed ++ [line]) then s.spill else s
  let s := { s with unflushed := s.unflushed ++ [line] }
  if s.options.held ≤ lineBytes s.unflushed then s.spill else s

/-- Every line that the sink has, in the file, on its way there or in the batch. -/
def lines (s : FileSink) : List String := s.flushed ++ s.unflushed ++ s.buffer

/-- Lines written, whether the file has taken them over or not. -/
def written (s : FileSink) : List String := s.flushed ++ s.unflushed

@[simp] theorem written_spill (s : FileSink) : s.spill.written = s.written := by
  simp [written, spill]

/-- Writes lines one after the other, up to the first that cannot be written. -/
def writeLines (s : FileSink) : List String → FileSink × Option Fault
  | [] => (s, none)
  | line :: lines =>
    if s.closed then (s, some .closedFile)
    else if s.options.refuses line then (s, some (.encoding line))
    else writeLines (s.hold line) lines

def flushHandle (s : FileSink) : FileSink × Option Fault :=
  if s.closed then (s, some .closedFile)
  else (s.spill, none)

/-- Writes the batch out; it is kept when that fails. -/
def writeBuffer (s : FileSink) : FileSink × Option Fault :=
  match s.writeLines s.buffer with
  | (s, none) => ({ s with buffer := [] }, none)
  | failed => failed

def andThen (done : FileSink × Option Fault) (next : FileSink → FileSink × Option Fault) :
    FileSink × Option Fault :=
  match done with
  | (s, none) => next s
  | failed => failed

def sync (s : FileSink) : FileSink × Option Fault :=
  match s.options.syncEvery with
  | some n =>
    if Int.emod s.taken n == 0 then
      andThen s.flushHandle fun s => ({ s with synced := s.flushed.length }, none)
    else (s, none)
  | none => (s, none)

def collect (s : FileSink) (line : String) : FileSink × Option Fault :=
  let s := { s with buffer := s.buffer ++ [line] }
  if s.options.every ≤ s.buffer.length then s.writeBuffer else (s, none)

def pass (s : FileSink) (line : String) : FileSink × Option Fault :=
  andThen (s.writeLines [line]) fun s =>
    if s.taken % s.options.every == 0 then s.flushHandle else (s, none)

def emit (s : FileSink) (r : Record) : FileSink × Option Fault :=
  if r.accepted s.options.stages then
    let s := { s with taken := s.taken + 1 }
    andThen (if s.options.batch then s.collect r.line else s.pass r.line) sync
  else (s, none)

def flush (s : FileSink) : FileSink × Option Fault :=
  andThen (if s.buffer.isEmpty then (s, none) else s.writeBuffer) flushHandle

/-- Writes out what is held back and closes the file. A closed sink stays as it is. -/
def close (s : FileSink) : FileSink × Option Fault :=
  if s.closed then (s, none)
  else andThen s.flush fun s => ({ s with closed := true }, none)

end FileSink
end Rehearsal
