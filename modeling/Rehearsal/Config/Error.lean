/-! What can be wrong with a configuration. -/

namespace Rehearsal
set_option autoImplicit false

/-- A problem at a place in the configuration. -/
structure Problem where
  place : List String
  text : String
deriving DecidableEq, Repr

def Problem.line (p : Problem) : String :=
  (if p.place.isEmpty then "<root>" else String.intercalate "." p.place) ++ ": " ++ p.text

inductive ConfigError where
  | rootNotMapping
  | notYaml (path : String)
  | invalid (problems : List Problem)
  | badImportPath (path : String)
  | noModule (name : String) (why : String)
  | noStepModule (name : String) (why : String)
  | noAttribute (module qualname : String)
  | notCallable (aliasName path : String)
deriving DecidableEq, Repr

def ConfigError.message : ConfigError → String
  | rootNotMapping => "Config root must be a mapping"
  | notYaml path => "Config file " ++ path ++ " is not valid YAML"
  | invalid problems =>
    "Invalid runner config:\n" ++ String.intercalate "\n" (problems.map Problem.line)
  | badImportPath path => "Import path must look like 'package.module:Name': " ++ path
  | noModule name why => "Cannot import module '" ++ name ++ "': " ++ why
  | noStepModule name why => "Cannot import step module '" ++ name ++ "': " ++ why
  | noAttribute module qualname =>
    "Module '" ++ module ++ "' has no attribute '" ++ qualname ++ "'"
  | notCallable aliasName path => "Context '" ++ aliasName ++ "' (" ++ path ++ ") is not callable"

end Rehearsal
