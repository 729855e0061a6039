import Rehearsal.Fault

/-! Points in time, read from and written in ISO 8601. They are counted in microseconds from the
start of 1970 in UTC; a text without an offset is taken for UTC. -/

namespace Rehearsal
set_option autoImplicit false
open Rehearsal.Text

structure Timestamp where
  micros : Int
deriving DecidableEq, Repr

namespace Timestamp

def isLeap (year : Nat) : Bool := year % 4 == 0 && (year % 100 != 0 || year % 400 == 0)

def daysInMonth (year month : Nat) : Nat :=
  if month == 2 then (if isLeap year then 29 else 28)
  else if month == 4 || month == 6 || month == 9 || month == 11 then 30
  else 31

/-- Days before the first of January of a year, counted from the year 1. -/
def daysBeforeYear (year : Nat) : Nat :=
  let y := year - 1
  y * 365 + y / 4 - y / 100 + y / 400

/-- Days of a year before the first of a month. -/
def daysBeforeMonth (year : Nat) : (month : Nat) → Nat
  | 0 => 0
  | 1 => 0
  | month + 2 => daysBeforeMonth year (month + 1) + daysInMonth year (month + 1)

def dayNumber (year month day : Nat) : Int :=
  (daysBeforeYear year + daysBeforeMonth year month + day : Int) - 719163

/-- The year, month and day of a day counted from the first of January of the year 1. -/
def dateOf (day : Nat) : Nat × Nat × Nat :=
  let guess := day / 366 + 1
  let year := ((List.range (day / 146097 * 3 + 5)).map (· + guess)).foldl
    (fun y c => if daysBeforeYear c ≤ day then c else y) guess
  let rest := day - daysBeforeYear year
  let month := ((List.range 12).map (· + 1)).foldl
    (fun m c => if daysBeforeMonth year c ≤ rest then c else m) 1
  (year, month, rest - daysBeforeMonth year month + 1)

def padded (width n : Nat) : String :=
  let digits := toString n
  "".pushn '0' (width - digits.length) ++ digits

def secondMicros : Nat := 1000000

def dayMicros : Nat := 86400 * secondMicros

/-- The year, month and day of a point in time. -/
def date (t : Timestamp) : Nat × Nat × Nat := dateOf (Int.fdiv t.micros dayMicros + 719162).toNat

/-- The microseconds since the day began. -/
def ofDay (t : Timestamp) : Nat := (Int.fmod t.micros dayMicros).toNat

/-- Date and time of day, with a separator between them. -/
def dateAndTime (separator : String) (t : Timestamp) : String :=
  let (year, month, day) := t.date
  let seconds := t.ofDay / secondMicros
  let fraction := t.ofDay % secondMicros
  padded 4 year ++ "-" ++ padded 2 month ++ "-" ++ padded 2 day ++ separator ++
    padded 2 (seconds / 3600) ++ ":" ++ padded 2 (seconds / 60 % 60) ++ ":" ++
    padded 2 (seconds % 60) ++ (if fraction == 0 then "" else "." ++ padded 6 fraction)

def text (t : Timestamp) : String := t.dateAndTime "T" ++ "Z"

/-- The text of a point in time that is not reported as such, but shown. -/
def display (t : Timestamp) : String := t.dateAndTime " " ++ "+00:00"

/-- The text of a point in time as a part of another. Seconds that are nothing are left out. -/
def shown (t : Timestamp) : String :=
  let (year, month, day) := t.date
  let seconds := t.ofDay / secondMicros
  let fraction := t.ofDay % secondMicros
  let fine :=
    if fraction != 0 then [seconds % 60, fraction]
    else if seconds % 60 != 0 then [seconds % 60]
    else []
  let parts := [year, month, day, seconds / 3600, seconds / 60 % 60] ++ fine
  "datetime.datetime(" ++ String.intercalate ", " (parts.map fun n => toString n) ++
    ", tzinfo=datetime.timezone.utc)"

/-- The number that exactly `n` ASCII digits stand for, and what follows them. -/
def takeNumber (n : Nat) (cs : List Char) : Option (Nat × List Char) :=
  let digits := cs.take n
  if digits.length == n && digits.all Char.isDigit then
    some (digits.foldl (fun v c => v * 10 + (c.toNat - 48)) 0, cs.drop n)
  else none

def takeDate (cs : List Char) : Option (Int × List Char) := do
  let (year, cs) ← takeNumber 4 cs
  let dashed := cs.head? == some '-'
  let (month, cs) ← takeNumber 2 (if dashed then cs.drop 1 else cs)
  let cs ← if dashed then (if cs.head? == some '-' then some (cs.drop 1) else none) else some cs
  let (day, cs) ← takeNumber 2 cs
  if 1 ≤ year && 1 ≤ month && month ≤ 12 && 1 ≤ day && day ≤ daysInMonth year month then
    some (dayNumber year month day, cs)
  else none

/-- The digits after a point or a comma, as microseconds. -/
def takeFraction : List Char → Option (Nat × List Char)
  | '.' :: cs | ',' :: cs =>
    let digits := cs.takeWhile Char.isDigit
    if digits.isEmpty then none
    else
      let six := (digits ++ List.replicate 6 '0').take 6
      (takeNumber 6 six).map fun (n, _) => (n, cs.dropWhile Char.isDigit)
  | cs => some (0, cs)

/-- A time of day in microseconds: hours, and minutes, seconds and a fraction where they follow. -/
def takeTime (cs : List Char) : Option (Nat × List Char) := do
  let (hour, cs) ← takeNumber 2 cs
  let colons := cs.head? == some ':'
  let next := fun (cs : List Char) =>
    if colons then (if cs.head? == some ':' then takeNumber 2 (cs.drop 1) else none)
    else takeNumber 2 cs
  let (minute, cs, more) := match next cs with
    | some (m, rest) => (m, rest, true)
    | none => (0, cs, false)
  let (second, cs, more) := match (if more then next cs else none) with
    | some (s, rest) => (s, rest, true)
    | none => (0, cs, false)
  let (fraction, cs) ← if more then takeFraction cs else some (0, cs)
  if hour < 24 && minute < 60 && second < 60 then
    some (((hour * 60 + minute) * 60 + second) * secondMicros + fraction, cs)
  else none

def takeOffset : List Char → Option Int
  | [] => some 0
  | ['Z'] => some 0
  | '+' :: cs => (takeTime cs).bind fun (n, rest) => if rest.isEmpty then some (n : Int) else none
  | '-' :: cs => (takeTime cs).bind fun (n, rest) => if rest.isEmpty then some (-(n : Int)) else none
  | _ => none

def parse? (s : String) : Option Timestamp := do
  let (day, cs) ← takeDate s.toList
  match cs with
  | [] => some ⟨day * dayMicros⟩
  | _ :: cs =>
    let (time, cs) ← takeTime cs
    let offset ← takeOffset cs
    some ⟨day * dayMicros + time - offset⟩

def parse (s : String) : Except Fault Timestamp :=
  match parse? s with
  | some t => .ok t
  | none => .error (.ofKind "ValueError" ("Invalid isoformat string: " ++ quoted s))

end Timestamp
end Rehearsal
