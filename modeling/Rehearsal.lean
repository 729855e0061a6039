import Rehearsal.Script.Bootstrap
import Rehearsal.Script.Items
import Rehearsal.Script.Records
import Rehearsal.Script.Settings
import Rehearsal.Json.Reader
import Rehearsal.Proofs.Ambiguity
import Rehearsal.Proofs.Automatic
import Rehearsal.Proofs.Bootstrap.Refusal
import Rehearsal.Proofs.Bootstrap.Sharing
import Rehearsal.Proofs.Coercion
import Rehearsal.Proofs.Contexts.Capability
import Rehearsal.Proofs.Contexts.Declared
import Rehearsal.Proofs.Contexts.Salvage
import Rehearsal.Proofs.Contexts.Walk
import Rehearsal.Proofs.Durability
import Rehearsal.Proofs.Identity
import Rehearsal.Proofs.Json
import Rehearsal.Proofs.LogLine
import Rehearsal.Proofs.Numeral
import Rehearsal.Proofs.Repetition
import Rehearsal.Proofs.Scenario.Cause
import Rehearsal.Proofs.Scenario.Coercion
import Rehearsal.Proofs.Scenario.Dispatch
import Rehearsal.Proofs.Scenario.Invocation
import Rehearsal.Proofs.Scenario.Ownership
import Rehearsal.Proofs.Scenario.Protocol
import Rehearsal.Proofs.Scenario.Setup
import Rehearsal.Proofs.Scenario.Skipping
import Rehearsal.Proofs.Scenario.Telling
import Rehearsal.Proofs.Sink
import Rehearsal.Proofs.Stacks
import Rehearsal.Proofs.Suite.Closing
import Rehearsal.Proofs.Suite.Foresight
import Rehearsal.Proofs.Suite.Halt
import Rehearsal.Proofs.Suite.Interruption
import Rehearsal.Proofs.Suite.Isolation
import Rehearsal.Proofs.Suite.Mirror
import Rehearsal.Proofs.Suite.Reasons
import Rehearsal.Proofs.Suite.Rupture
import Rehearsal.Proofs.Suite.Sessions
import Rehearsal.Proofs.Suite.Stream
import Rehearsal.Proofs.Suite.Verdict
