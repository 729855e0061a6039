import Rehearsal.Report.Timestamp

/-! Dates and times in YAML texts. -/

namespace Rehearsal.Yaml
set_option autoImplicit false

/-- Where a time was taken. -/
inductive Zone where
  | unknown
  | utc
  | offset (west : Bool) (hours minutes : Nat)
deriving DecidableEq, Repr

structure Clock where
  hour : Nat
  minute : Nat
  second : Nat
  micros : Nat
  zone : Zone
deriving DecidableEq, Repr

structure Moment where
  year : Nat
  month : Nat
  day : Nat
  /-- Have month and day two digits each? -/
  padded : Bool
  clock : Option Clock
deriving DecidableEq, Repr

namespace Moment

/-- One digit or two, and whether there are two. -/
def shortNumber? : List Char → Option (Nat × Bool × List Char)
  | [] => none
  | c :: cs =>
    if !c.isDigit then none
    else
      match cs with
      | d :: rest =>
        if d.isDigit then some ((c.toNat - 48) * 10 + (d.toNat - 48), true, rest)
        else some (c.toNat - 48, false, cs)
      | [] => some (c.toNat - 48, false, [])

def expect? (c : Char) : List Char → Option (List Char)
  | [] => none
  | d :: rest => if d == c then some rest else none

/-- The digits after a point as microseconds; what is smaller is cut off. -/
def microsOf (digits : List Char) : Nat :=
  ((digits ++ List.replicate 6 '0').take 6).foldl (fun n d => 10 * n + (d.toNat - 48)) 0

def readFraction : List Char → Nat × List Char
  | '.' :: cs => (microsOf (cs.takeWhile Char.isDigit), cs.dropWhile Char.isDigit)
  | cs => (0, cs)

def isBlank (c : Char) : Bool := c == ' ' || c == '\t'

def readZone? (cs : List Char) : Option Zone :=
  if cs.isEmpty then some .unknown
  else
    match cs.dropWhile isBlank with
    | ['Z'] => some .utc
    | c :: rest =>
      if c == '+' || c == '-' then
        match shortNumber? rest with
        | some (hours, _, []) => some (.offset (c == '-') hours 0)
        | some (hours, _, ':' :: rest) =>
          match Timestamp.takeNumber 2 rest with
          | some (minutes, []) => some (.offset (c == '-') hours minutes)
          | _ => none
        | _ => none
      else none
    | [] => none

def readClock? (cs : List Char) : Option Clock := do
  let cs ←
    match cs with
    | 'T' :: cs | 't' :: cs => some cs
    | c :: cs => if isBlank c then some (cs.dropWhile isBlank) else none
    | [] => none
  let (hour, _, cs) ← shortNumber? cs
  let (minute, cs) ← Timestamp.takeNumber 2 (← expect? ':' cs)
  let (second, cs) ← Timestamp.takeNumber 2 (← expect? ':' cs)
  let (micros, cs) := readFraction cs
  return ⟨hour, minute, second, micros, ← readZone? cs⟩

def read? (s : String) : Option Moment := do
  let (year, cs) ← Timestamp.takeNumber 4 s.toList
  let (month, wideMonth, cs) ← shortNumber? (← expect? '-' cs)
  let (day, wideDay, cs) ← shortNumber? (← expect? '-' cs)
  let clock ← if cs.isEmpty then some none else (readClock? cs).map some
  return ⟨year, month, day, wideMonth && wideDay, clock⟩

/-! ### Moments that there are -/

def wrong {α : Type} (message : String) : Except Fault α := .error (.ofKind "ValueError" message)

def spanText (seconds : Int) : String :=
  let days := Int.fdiv seconds 86400
  let rest := Int.fmod seconds 86400
  let parts := (if days == 0 then [] else [s!"days={days}"]) ++
    (if rest == 0 then [] else [s!"seconds={rest}"])
  "datetime.timedelta(" ++ String.intercalate ", " parts ++ ")"

def checkZone : Zone → Except Fault Unit
  | .offset west hours minutes =>
    let seconds : Nat := hours * 3600 + minutes * 60
    if seconds < 86400 then .ok ()
    else
      wrong ("offset must be a timedelta strictly between -timedelta(hours=24) and " ++
        "timedelta(hours=24), not " ++ spanText (if west then -(seconds : Int) else seconds) ++ ".")
  | _ => .ok ()

def checkDate (m : Moment) : Except Fault Unit :=
  if m.year == 0 then wrong "year 0 is out of range"
  else if m.month == 0 || 12 < m.month then wrong "month must be in 1..12"
  else if m.day == 0 || Timestamp.daysInMonth m.year m.month < m.day then
    wrong "day is out of range for month"
  else .ok ()

def checkClock (c : Clock) : Except Fault Unit :=
  if 23 < c.hour then wrong "hour must be in 0..23"
  else if 59 < c.minute then wrong "minute must be in 0..59"
  else if 59 < c.second then wrong "second must be in 0..59"
  else .ok ()

/-- A number for a moment; different moments have different ones. -/
def code (m : Moment) : Nat :=
  let date := (m.year * 12 + m.month) * 32 + m.day
  match m.clock with
  | none => 2 * date
  | some c =>
    let zone :=
      match c.zone with
      | .unknown => 0
      | .utc => 1
      | .offset west hours minutes => 2 + 2 * (hours * 100 + minutes) + (if west then 1 else 0)
    2 * ((((date * 24 + c.hour) * 60 + c.minute) * 60 + c.second) * 1000000 + c.micros) * 30000 +
      2 * zone + 1

/-- A moment as a value: a date, or a date with a time of day. -/
def toValue (m : Moment) : Except Fault Value := do
  match m.clock with
  | none =>
    checkDate m
    return .object "date" m.code
  | some c =>
    checkZone c.zone
    checkDate m
    checkClock c
    return .object "datetime" m.code

end Moment
end Rehearsal.Yaml
