import Rehearsal.Pattern.Parser
import Rehearsal.Pattern.Matcher

/-! Patterns ready for use. Once a pattern is read, what can still be wrong with it is a look-behind
whose width varies or a repetition in template form. -/

namespace Rehearsal.Pattern
set_option autoImplicit false

def Greed.operatorName : Greed → String
  | .greedy => "MAX_REPEAT"
  | .lazy => "MIN_REPEAT"
  | .possessive => "POSSESSIVE_REPEAT"

def lookBehindLimit : Nat := 4294967295

mutual

def Node.check (flags : Flags) (node : Node) : Except PatternError Unit :=
  match node with
  | .loop greed _ _ body =>
    if flags.template then .error (.malformed (.templateOperator greed.operatorName) none)
    else checkSeq flags body
  | .group _ added removed body => checkSeq (flags.within added removed) body
  | .atomic body => checkSeq flags body
  | .choice branches => checkBranches flags branches
  | .look behind _ body =>
    match behind with
    | some (lo, hi) =>
      if lookBehindLimit < lo then .error (.malformed .tooFarBehind none)
      else if lo != hi then .error (.malformed .variableLookBehind none)
      else checkSeq flags body
    | none => checkSeq flags body
  | .conditional _ yes no =>
    match checkSeq flags yes with
    | .ok _ =>
      match no with
      | some no => checkSeq flags no
      | none => .ok ()
    | .error e => .error e
  | _ => .ok ()

def checkSeq (flags : Flags) (nodes : List Node) : Except PatternError Unit :=
  match nodes with
  | [] => .ok ()
  | n :: ns =>
    match n.check flags with
    | .ok _ => checkSeq flags ns
    | .error e => .error e

def checkBranches (flags : Flags) (branches : List (List Node)) : Except PatternError Unit :=
  match branches with
  | [] => .ok ()
  | b :: bs =>
    match checkSeq flags b with
    | .ok _ => checkBranches flags bs
    | .error e => .error e

end

end Rehearsal.Pattern

namespace Rehearsal
set_option autoImplicit false

/-- A pattern with its source text. -/
structure Pattern where
  source : String
  parsed : Pattern.Parsed

namespace Pattern

/-- Reads a pattern, however deep its groups are nested. Where an interpreter bounds the depth to which it can
read or match, this is not kept. -/
def compile (source : String) : Except PatternError Pattern := do
  let parsed ← parse source
  checkSeq parsed.flags parsed.nodes
  return ⟨source, parsed⟩

def arity (p : Pattern) : Nat := p.parsed.groups

/-- What the groups captured in a text that the pattern takes as a whole. -/
def fullMatch? (p : Pattern) (text : String) : Option (List (Option String)) :=
  let cs := text.toList.toArray
  let start : Spot := ⟨0, Array.replicate p.arity {}⟩
  let finish : Rest := fun s => if s.position == cs.size then some s else none
  (runSeq cs p.parsed.flags p.parsed.nodes finish start).map fun s =>
    s.marks.toList.map fun m =>
      m.span?.map fun (a, b) => String.ofList (cs.extract a b).toList

end Pattern
end Rehearsal
