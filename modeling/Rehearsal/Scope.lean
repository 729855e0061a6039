import Rehearsal.Outcome
import Rehearsal.Scenario

/-! Scopes: what hooks are told about the place that a run has come to. -/

namespace Rehearsal
set_option autoImplicit false

structure ScenarioScope where
  scenarioId : String
  scenario : Scenario
  feature : Option Feature
  tags : List String
  result : Option ScenarioResult

structure StepScope where
  scenario : ScenarioScope
  step : Step
  index : Nat
  result : Option StepResult

inductive Scope where
  | suite (features : List Feature) (result : Option SuiteResult)
  | feature (feature : Feature) (result : Option FeatureResult)
  | scenario (s : ScenarioScope)
  | step (s : StepScope)

namespace Scope

/-- The tags by which hooks are selected; without tags nothing is filtered. -/
def tags : Scope → Option (List String)
  | suite .. => none
  | feature f _ => some f.tags
  | scenario s => some s.tags
  | step s => some s.scenario.tags

def kindName : Scope → String
  | suite .. => "SuiteScope"
  | feature .. => "FeatureScope"
  | scenario _ => "ScenarioScope"
  | step _ => "StepScope"

end Scope
end Rehearsal
