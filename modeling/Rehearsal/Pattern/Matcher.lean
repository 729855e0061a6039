import Rehearsal.Pattern.Charset

/-! Matching by backtracking. Running a node at a spot tries each way in which the node takes
characters, in order of preference, and hands the spot behind them to what follows; the first way
on which all that follows succeeds is the answer. -/

namespace Rehearsal.Pattern
set_option autoImplicit false

/-- What a group has taken: where it was last entered and where it was last left. -/
structure Mark where
  start : Option Nat := none
  stop : Option Nat := none
deriving DecidableEq, Repr

def Mark.span? (m : Mark) : Option (Nat × Nat) :=
  match m.start, m.stop with
  | some a, some b => if a ≤ b then some (a, b) else none
  | _, _ => none

/-- A place in the text and what the groups hold there. Groups count from 1. -/
structure Spot where
  position : Nat
  marks : Array Mark

def Spot.span? (s : Spot) (id : Nat) : Option (Nat × Nat) :=
  (s.marks[id - 1]?).bind Mark.span?

def Spot.enter (s : Spot) (id : Nat) : Spot :=
  { s with marks := s.marks.modify (id - 1) fun m => { m with start := some s.position } }

def Spot.leave (s : Spot) (id : Nat) : Spot :=
  { s with marks := s.marks.modify (id - 1) fun m => { m with stop := some s.position } }

abbrev Rest := Spot → Option Spot

abbrev Text := Array Char

def wordAt (flags : Flags) (text : Text) (i : Nat) : Bool :=
  ((text[i]?).map fun c => Category.holds flags c .word).getD false

def Anchor.holds (flags : Flags) (text : Text) (p : Nat) : Anchor → Bool
  | .start => p == 0 || (flags.multiline && text[p - 1]? == some '\n')
  | .stop =>
    p == text.size || (text[p]? == some '\n' && (flags.multiline || p + 1 == text.size))
  | .textStart => p == 0
  | .textStop => p == text.size
  | .boundary =>
    text.size != 0 && ((p != 0 && wordAt flags text (p - 1)) != wordAt flags text p)
  | .noBoundary =>
    text.size != 0 && ((p != 0 && wordAt flags text (p - 1)) == wordAt flags text p)

/-- The number of characters from `p` on that pass a test, up to `limit`. -/
def runLength (text : Text) (test : Char → Bool) (limit : Nat) (p : Nat) : Nat :=
  match limit with
  | 0 => 0
  | limit + 1 =>
    match text[p]? with
    | some c => if test c then runLength text test limit (p + 1) + 1 else 0
    | none => 0

/-- Tries `least + extra` characters first, then one less each time. -/
def shrink (k : Rest) (s : Spot) (least : Nat) : Nat → Option Spot
  | 0 => k { s with position := s.position + least }
  | extra + 1 =>
    match k { s with position := s.position + least + (extra + 1) } with
    | some r => some r
    | none => shrink k s least extra

/-- Tries the spot reached first, then one more character each time. -/
def grow (k : Rest) (s : Spot) : Nat → Option Spot
  | 0 => k s
  | extra + 1 =>
    match k s with
    | some r => some r
    | none => grow k { s with position := s.position + 1 } extra

def runUnits (text : Text) (test : Char → Bool) (greed : Greed) (least : Nat) (most : Option Nat)
    (k : Rest) (s : Spot) : Option Spot :=
  let left := text.size - s.position
  let n := runLength text test (match most with | some m => min m left | none => left) s.position
  if n < least then none
  else
    match greed with
    | .greedy => shrink k s least (n - least)
    | .lazy => grow k { s with position := s.position + least } (n - least)
    | .possessive => k { s with position := s.position + n }

def below (n : Nat) (most : Option Nat) : Bool :=
  match most with
  | some m => n < m
  | none => true

/-- As many rounds of a body as there can be, then fewer. `last` is where the round before began;
a round that took nothing is the last one. -/
def runGreedy (body : Rest → Rest) (least : Nat) (most : Option Nat) (k : Rest) :
    (fuel done : Nat) → (last : Option Nat) → Rest
  | 0, _, _, _ => none
  | fuel + 1, done, last, s =>
    if done < least then body (runGreedy body least most k fuel (done + 1) last) s
    else if below done most && last != some s.position then
      match body (runGreedy body least most k fuel (done + 1) (some s.position)) s with
      | some r => some r
      | none => k s
    else k s

def runLazy (body : Rest → Rest) (least : Nat) (most : Option Nat) (k : Rest) :
    (fuel done : Nat) → (last : Option Nat) → Rest
  | 0, _, _, _ => none
  | fuel + 1, done, last, s =>
    if done < least then body (runLazy body least most k fuel (done + 1) last) s
    else
      match k s with
      | some r => some r
      | none =>
        if below done most && last != some s.position then
          body (runLazy body least most k fuel (done + 1) (some s.position)) s
        else none

def runPossessive (body : Rest → Rest) (least : Nat) (most : Option Nat) (k : Rest) :
    (fuel done : Nat) → (last : Option Nat) → Rest
  | 0, _, _, _ => none
  | fuel + 1, done, last, s =>
    if done < least then
      match body some s with
      | some r => runPossessive body least most k fuel (done + 1) last r
      | none => none
    else if below done most && last != some s.position then
      match body some s with
      | some r => runPossessive body least most k fuel (done + 1) (some s.position) r
      | none => k s
    else k s

/-- Do the characters at `p` repeat those of a group? -/
def repeats (flags : Flags) (text : Text) (start length p : Nat) : Bool :=
  (List.range length).all fun i =>
    match text[start + i]?, text[p + i]? with
    | some a, some b =>
      if flags.ignoreCase then foldCase flags a == foldCase flags b else a == b
    | _, _ => false

mutual

def Node.run (text : Text) (flags : Flags) (node : Node) (k : Rest) (s : Spot) : Option Spot :=
  match node with
  | .one code =>
    match text[s.position]? with
    | some c => if isOne flags code c then k { s with position := s.position + 1 } else none
    | none => none
  | .other code =>
    match text[s.position]? with
    | some c => if isOne flags code c then none else k { s with position := s.position + 1 }
    | none => none
  | .any =>
    match text[s.position]? with
    | some c =>
      if flags.dotAll || c != '\n' then k { s with position := s.position + 1 } else none
    | none => none
  | .set negated items =>
    match text[s.position]? with
    | some c =>
      if inSet flags items c != negated then k { s with position := s.position + 1 } else none
    | none => none
  | .anchor a => if a.holds flags text s.position then k s else none
  | .loop greed least most body =>
    match unitTest? flags body with
    | some test => runUnits text test greed least most k s
    | none =>
      let round := runSeq text flags body
      let fuel := least + (text.size - s.position) + 2
      match greed with
      | .greedy => runGreedy round least most k fuel 0 none s
      | .lazy => runLazy round least most k fuel 0 none s
      | .possessive => runPossessive round least most k fuel 0 none s
  | .group id added removed body =>
    let flags := flags.within added removed
    match id with
    | some id => runSeq text flags body (fun s => k (s.leave id)) (s.enter id)
    | none => runSeq text flags body k s
  | .atomic body =>
    match runSeq text flags body some s with
    | some s => k s
    | none => none
  | .choice branches => runChoice text flags branches k s
  | .look behind negated body =>
    let back := (behind.map (·.1)).getD 0
    let found :=
      if s.position < back then none
      else runSeq text flags body some { s with position := s.position - back }
    match found, negated with
    | some r, false => k { r with position := s.position }
    | none, true => k s
    | _, _ => none
  | .backref id =>
    match s.span? id with
    | some (start, stop) =>
      if repeats flags text start (stop - start) s.position then
        k { s with position := s.position + (stop - start) }
      else none
    | none => none
  | .conditional id yes no =>
    if (s.span? id).isSome then runSeq text flags yes k s
    else
      match no with
      | some no => runSeq text flags no k s
      | none => k s

def runSeq (text : Text) (flags : Flags) (nodes : List Node) (k : Rest) (s : Spot) : Option Spot :=
  match nodes with
  | [] => k s
  | n :: ns => Node.run text flags n (runSeq text flags ns k) s

def runChoice (text : Text) (flags : Flags) (branches : List (List Node)) (k : Rest) (s : Spot) :
    Option Spot :=
  match branches with
  | [] => none
  | b :: bs =>
    match runSeq text flags b k s with
    | some r => some r
    | none => runChoice text flags bs k s

/-- The test of a body that is one node for one character, brackets aside. -/
def unitTest? (flags : Flags) (body : List Node) : Option (Char → Bool) :=
  match body with
  | [n] => Node.unitTest? flags n
  | _ => none

def Node.unitTest? (flags : Flags) (node : Node) : Option (Char → Bool) :=
  match node with
  | .group none added removed body => Rehearsal.Pattern.unitTest? (flags.within added removed) body
  | n => n.test? flags

end

end Rehearsal.Pattern
