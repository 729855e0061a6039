import Rehearsal.Fault

/-! The faults that scripts raise, by the name of their kind. -/

namespace Rehearsal.Script
set_option autoImplicit false

/-- What the constructor of a kind has to be given; kinds that take anything have no entry. -/
def requiredParts : String → List String
  | "CompositionError" => ["message"]
  | "UnknownSubcontextError" => ["alias"]
  | "NotFoundError" => ["capability"]
  | "DuplicatePatternError" => ["pattern", "arity", "priority"]
  | "AmbiguousCapabilityError" => ["capability", "aliases"]
  | "SetupError" => ["scenario", "cause"]
  | "AmbiguousMatchError" => ["text", "patterns"]
  | "StepFailure" => ["where", "cause"]
  | "ArgumentCoercionError" => ["pattern", "value", "type_name"]
  | _ => []

/-- How many parts a kind that takes an exact number of them takes. -/
def exactParts : String → Option (String × Nat)
  | "UnicodeDecodeError" | "UnicodeEncodeError" => some ("function", 5)
  | "UnicodeTranslateError" => some ("function", 4)
  | "BaseExceptionGroup" | "ExceptionGroup" => some ("BaseExceptionGroup.__new__()", 2)
  | _ => none

/-- The text of a fault that is raised with a message. -/
def messageText (kind : String) : Option Value → String
  | none => ""
  | some v => if kind == "KeyError" then v.shown else v.display

/-- The fault of a kind, raised with a message or without. -/
def faultOf (kind : String) (message : Option Value) : Fault :=
  let given := if message.isSome then 1 else 0
  match exactParts kind with
  | some (what, n) =>
    .ofKind "TypeError" (what ++ s!" takes exactly {n} arguments ({given} given)")
  | none =>
    let missing := (requiredParts kind).drop given
    if !missing.isEmpty then .binding (.missing (kind ++ ".__init__") false missing)
    else
      match kind, message with
      | "NotFoundError", some v => .noCapability v.shown
      | "UnknownSubcontextError", some v => .unknownAlias v.display
      | _, _ => .ofKind kind (messageText kind message)

end Rehearsal.Script
