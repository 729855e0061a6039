import Rehearsal.Config.Reading
import Rehearsal.Yaml.Load

/-! Where a runner's configuration comes from: a value, the text of a file, or a configuration that has
been read before. -/

namespace Rehearsal
set_option autoImplicit false

inductive ConfigSource where
  | value (v : Value)
  | ready (c : RunnerConfig)

namespace ConfigSource

def config : ConfigSource → Except ConfigError RunnerConfig
  | value v => RunnerConfig.ofValue v
  | ready c => .ok c

/-- The configuration where one may be left out: a value that says nothing stands for none. -/
def configOrStandard : ConfigSource → Except ConfigError RunnerConfig
  | value (.dict es) => RunnerConfig.ofValue (.dict es)
  | value v => if v.truthy then RunnerConfig.ofValue v else .ok .standard
  | ready c => .ok c

end ConfigSource

/-- The mapping in the text of a configuration file; an empty text stands for an empty mapping. -/
def loadMapping (path text : String) : Except Fault Value :=
  match Yaml.load text with
  | .error (.malformed _) => .error (.config (.notYaml path))
  | .error (.fault f) => .error f
  | .ok .null => .ok (.dict [])
  | .ok (.dict es) => .ok (.dict es)
  | .ok _ => .error (.config .rootNotMapping)

def loadConfig (path text : String) : Except Fault RunnerConfig := do
  match RunnerConfig.ofValue (← loadMapping path text) with
  | .ok c => return c
  | .error e => throw (.config e)

end Rehearsal
