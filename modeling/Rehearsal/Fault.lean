import Rehearsal.Callable
import Rehearsal.Config.Error
import Rehearsal.Number.Reading
import Rehearsal.Pattern.Flaw
import Rehearsal.Value.Display

/-! Faults: everything that can interrupt a computation, given by its cause. Each has the name of
its kind, a message, and a family that says what a run does about it. -/

namespace Rehearsal
set_option autoImplicit false
open Rehearsal.Text

/-- What is wrong with loosely typed data. -/
inductive ShapeError where
  | notIterable (kind : String)
  | notUnpackable (kind : String)
  | tooFewItems (expected got : Nat)
  | tooManyItems (expected : Nat)
  | noMember (kind member : String)
  | readOnly (kind member : String)
  | unhashable (kind : String)
  | notPair (index : Nat)
  | pairLength (index length : Nat)
  | outOfRange (what : String)
  | notText (what kind : String)
  | other (kind message : String)
deriving DecidableEq, Repr

def ShapeError.kind : ShapeError → String
  | notIterable _ | notUnpackable _ | unhashable _ | notPair _ => "TypeError"
  | notText .. => "TypeError"
  | tooFewItems .. | tooManyItems _ | pairLength .. => "ValueError"
  | noMember .. => "AttributeError"
  | readOnly .. => "FrozenInstanceError"
  | outOfRange _ => "IndexError"
  | other kind _ => kind

def ShapeError.message : ShapeError → String
  | notIterable kind => s!"'{kind}' object is not iterable"
  | notUnpackable kind => s!"cannot unpack non-iterable {kind} object"
  | tooFewItems expected got => s!"not enough values to unpack (expected {expected}, got {got})"
  | tooManyItems expected => s!"too many values to unpack (expected {expected})"
  | noMember kind member => s!"'{kind}' object has no attribute '{member}'"
  | readOnly _ member => s!"cannot assign to field '{member}'"
  | unhashable kind => s!"unhashable type: '{kind}'"
  | notPair index => s!"cannot convert dictionary update sequence element #{index} to a sequence"
  | pairLength index length =>
    s!"dictionary update sequence element #{index} has length {length}; 2 is required"
  | outOfRange what => what ++ " index out of range"
  | notText what kind => s!"{what} must be str, not {kind}"
  | other _ message => message

/-- Why a step definition or a hook is refused. `subject` names it. -/
inductive DefinitionError where
  | blankPattern
  | unknownKeyword (keyword : String)
  | badPattern (pattern : String) (error : Pattern.PatternError)
  | tooManyTypes (pattern : String) (types captures : Nat)
  | notCallable (subject : String)
  | tooFewParameters (subject : String) (count : Nat)
  | keywordOnly (subject : String)
  | tooManyRequired (subject : String) (required most : Nat)
  | stepNotMethod (member : String)
  | hookNotMethod (member phase : String)
  | hookNotStatic (member phase : String)
deriving DecidableEq, Repr

def DefinitionError.message : DefinitionError → String
  | blankPattern => "StepDefinition.pattern must be a non-empty string"
  | unknownKeyword keyword => "Unknown step keyword: " ++ keyword
  | badPattern pattern error =>
    "Invalid step pattern '" ++ pattern ++ "': " ++ error.message pattern
  | tooManyTypes pattern types captures =>
    "Step pattern '" ++ pattern ++ s!"' declares {types} types for {captures} captures"
  | notCallable subject => subject ++ " is not callable"
  | tooFewParameters subject count =>
    subject ++ s!" cannot accept {count} positional arguments: too many positional arguments"
  | keywordOnly subject =>
    subject ++ " has required keyword-only parameters the kernel never passes"
  | tooManyRequired subject required most =>
    subject ++ s!" requires {required} positional arguments but receives at most {most}"
  | stepNotMethod member => member ++ ": step definitions must be plain methods"
  | hookNotMethod member phase => member ++ ": " ++ phase ++ " hooks must be plain methods"
  | hookNotStatic member phase =>
    member ++ ": " ++ phase ++ " hooks must be staticmethods or classmethods"

/-- What is said of the first surrogates of a text that is to be encoded. -/
def encodingMessage (text : String) : String :=
  let (first, run) := surrogateRun text.toList
  let what :=
    match run with
    | [c] => "character '" ++ String.ofList (codePointEscape (codeOf c)) ++ s!"' in position {first}"
    | _ => s!"characters in position {first}-{first + run.length - 1}"
  "'utf-8' codec can't encode " ++ what ++ ": surrogates not allowed"

/-- The classes of errors that handlers of a run name, beside the class of all errors. -/
inductive ErrorClass where
  | pendingStep
  | typeError
  | valueError
  | ambiguousMatch
  | argumentCoercion
deriving DecidableEq, Repr

/-- What a run does about a fault: it contains an ordinary one and a pending step, an interrupt
stops it in order, and an exit passes through. -/
inductive Fault.Family where
  | ordinary
  | pending
  | interrupt
  | exit
deriving DecidableEq, Repr

/-- Where the class of an exception stands, as far as handlers ask. What is an error is no interrupt:
classes that extend both are left out. -/
inductive Lineage where
  /-- An error, with those of the named classes that its class is or extends. -/
  | error (classes : List ErrorClass)
  | interrupt
  | exit
deriving DecidableEq, Repr

namespace Lineage

/-- The named classes of an error that is known by the name of its class. -/
def classesOf : String → List ErrorClass
  | "PendingStep" => [.pendingStep]
  | "TypeError" => [.typeError]
  | "ValueError" | "UnicodeError" | "UnicodeEncodeError" | "UnicodeDecodeError"
  | "UnicodeTranslateError" | "JSONDecodeError" | "ConfigError" => [.valueError]
  | "AmbiguousMatchError" => [.ambiguousMatch]
  | "ArgumentCoercionError" => [.argumentCoercion]
  | _ => []

/-- The lineage of a class that is known by its name. -/
def named : String → Lineage
  | "KeyboardInterrupt" => interrupt
  | "SystemExit" | "GeneratorExit" | "BaseException" => exit
  | kind => error (classesOf kind)

/-- Would a handler that names a class catch what is of this lineage? -/
def includes : Lineage → ErrorClass → Bool
  | error classes, c => classes.contains c
  | _, _ => false

def family : Lineage → Fault.Family
  | error classes => if classes.contains .pendingStep then .pending else .ordinary
  | interrupt => .interrupt
  | exit => .exit

end Lineage

inductive Fault where
  /-- Raised by whoever is called, with the name of its class, where this class stands, and its text.
  Any name may go with any lineage, as classes of all kinds may be raised. That the text of an
  exception can be had is taken for granted: none is so made that asking for its text raises. -/
  | raised (kind : String) (lineage : Lineage) (message : String)
  | shape (error : ShapeError)
  | number (error : Number.NumberError)
  | binding (error : BindingError)
  | pattern (source : String) (error : Pattern.PatternError)
  | blankTag
  | blankTerm (filter : String)
  | notMember (shown enumeration : String)
  | blankMark
  | badMarkKeyword
  | definition (error : DefinitionError)
  | duplicatePattern (pattern : String) (arity : Nat) (priority : Int)
  | registryFrozen
  | unregistrable (kind : String)
  | blankStep
  | keywordNotText
  | blankAlias
  | factoryNotCallable (aliasName : String)
  | aliasTaken (aliasName first second : String)
  | duplicateAlias (aliasName : String)
  | construction (aliasName identity : String) (cause : Fault)
  | unknownAlias (aliasName : String)
  | ambiguousCapability (shown : String) (aliases : List String)
  | noCapability (shown : String)
  | detached (kind : String)
  | setup (scenario : String) (cause : Fault)
  | ambiguousMatch (text : String) (patterns : List String)
  | unknownCoercer (pattern value type : String)
  | coercion (pattern value type : String) (cause : Fault)
  | workers
  | config (error : ConfigError)
  | logLevel (owner : String)
  | unknownLevel (level : String)
  | blankLog
  | closedFile
  /-- A text that UTF-8 has no form for. -/
  | encoding (text : String)
  | abstractSink (name adapter : String)
deriving DecidableEq, Repr

namespace Fault

/-- Raised by whoever is called, of a class that is known by its name. -/
def ofKind (kind message : String) : Fault := raised kind (.named kind) message

def kind : Fault → String
  | raised kind .. => kind
  | shape e => e.kind
  | number _ => "ValueError"
  | binding _ => "TypeError"
  | pattern _ .repetitionTooLarge => "OverflowError"
  | pattern .. => "ValueError"
  | blankTag | blankTerm _ | notMember .. | blankMark | badMarkKeyword | blankStep => "ValueError"
  | definition _ => "InvalidDefinitionError"
  | duplicatePattern .. => "DuplicatePatternError"
  | registryFrozen => "RegistryFrozenError"
  | unregistrable _ | keywordNotText => "TypeError"
  | blankAlias | factoryNotCallable _ | aliasTaken .. | duplicateAlias _ | construction .. =>
    "CompositionError"
  | unknownAlias _ => "UnknownSubcontextError"
  | ambiguousCapability .. => "AmbiguousCapabilityError"
  | noCapability _ => "NotFoundError"
  | detached _ => "RuntimeError"
  | setup .. => "SetupError"
  | ambiguousMatch .. => "AmbiguousMatchError"
  | unknownCoercer .. | coercion .. => "ArgumentCoercionError"
  | workers => "ValueError"
  | config _ => "ConfigError"
  | logLevel _ | blankLog | closedFile => "ValueError"
  | unknownLevel _ => "KeyError"
  | encoding _ => "UnicodeEncodeError"
  | abstractSink .. => "NotImplementedError"

/-- The faults of the runner are errors of classes that are known by their names. -/
def lineage : Fault → Lineage
  | raised _ lineage _ => lineage
  | f => .error (Lineage.classesOf f.kind)

def family (f : Fault) : Family := f.lineage.family

/-- Would a handler that names a class catch the fault? -/
def isA (f : Fault) (c : ErrorClass) : Bool := f.lineage.includes c

/-- Is it an error of configuration, one that a caller meets before any scenario runs? -/
def isConfiguration : Fault → Bool
  | definition _ | duplicatePattern .. | registryFrozen | blankAlias | factoryNotCallable _
  | aliasTaken .. | duplicateAlias _ | construction .. | unknownAlias _ | ambiguousCapability ..
  | noCapability _ | config _ => true
  | _ => false

/-- The text of a fault. Integers are written out whatever their length; where an interpreter bounds the
digits that it writes, this is not kept. -/
def message : Fault → String
  | raised _ _ message => message
  | shape e => e.message
  | number e => e.message
  | binding e => e.message
  | pattern source e => e.message source
  | blankTag => "Tag must be a non-empty string"
  | blankTerm filter => "Empty term in tag filter: " ++ quoted filter
  | notMember shown enumeration => shown ++ " is not a valid " ++ enumeration
  | blankMark => "StepMeta.pattern must be a non-empty string"
  | badMarkKeyword => "StepMeta.keyword must be one of: ['given', 'step', 'then', 'when']"
  | definition e => e.message
  | duplicatePattern source arity priority =>
    "Step pattern '" ++ source ++ s!"' (arity {arity}, priority {priority}) is already registered"
  | registryFrozen => "Registry is read-only once scenarios may run"
  | unregistrable kind => "Cannot register " ++ kind ++ "; expected StepDefinition or Hook"
  | blankStep => "ScenarioStep.text must be a non-empty string"
  | keywordNotText => "keywords must be strings"
  | blankAlias => "Context alias must be a non-empty string"
  | factoryNotCallable aliasName => "Context '" ++ aliasName ++ "' factory is not callable"
  | aliasTaken aliasName first second =>
    "Subcontext alias '" ++ aliasName ++ "' is declared by both " ++ first ++ " and " ++ second
  | duplicateAlias aliasName => "Duplicate context alias: " ++ aliasName
  | construction aliasName identity cause =>
    "Failed to construct context '" ++ aliasName ++ "' (" ++ identity ++ "): " ++ cause.message
  | unknownAlias aliasName => "Unknown subcontext alias: " ++ aliasName
  | ambiguousCapability shown aliases =>
    "Capability " ++ shown ++ " matches several contexts: " ++ quotedList aliases
  | noCapability shown => "No context provides capability " ++ shown
  | detached kind => kind ++ " is not attached to a live context graph"
  | setup scenario cause =>
    "Failed to compose contexts for scenario '" ++ scenario ++ "': " ++ cause.message
  | ambiguousMatch text patterns =>
    "Step '" ++ text ++ "' matches several definitions: " ++ quotedList patterns
  | unknownCoercer source value type =>
    "Cannot coerce '" ++ value ++ "' to " ++ type ++ " for step '" ++ source ++ "'"
  | coercion source value type cause =>
    "Cannot coerce '" ++ value ++ "' to " ++ type ++ " for step '" ++ source ++ "': " ++
      cause.message
  | workers => "SuiteRunner.workers must be >= 1"
  | config e => e.message
  | logLevel owner =>
    owner ++ ".level must be one of: ['debug', 'error', 'info', 'warning']"
  | unknownLevel level => quoted level
  | blankLog => "LogMessage requires non-empty level/message"
  | closedFile => "I/O operation on closed file."
  | encoding text => encodingMessage text
  | abstractSink name adapter => name ++ " is a port; use a concrete " ++ adapter ++ "."

end Fault
end Rehearsal
