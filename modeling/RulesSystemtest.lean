import RulesSystemtest.Library.Machine
import RulesSystemtest.Library.Weight
import RulesSystemtest.Library.Ledger
import RulesSystemtest.Library.Ownership
import RulesSystemtest.Library.Restriction
import RulesSystemtest.Library.SelfDelimiting
import RulesSystemtest.Library.Separator
import RulesSystemtest.Library.Wire
import RulesSystemtest.Library.Idempotent
import RulesSystemtest.Library.Overlay
import RulesSystemtest.Library.FirstOutcome
import RulesSystemtest.Library.Json
import RulesSystemtest.Library.JsonLayout
import RulesSystemtest.Library.Runes
import RulesSystemtest.Library.Ticker
import RulesSystemtest.Proto.Messages
import RulesSystemtest.Proto.Prost
import RulesSystemtest.Coordinator.Fixture
import RulesSystemtest.Coordinator.PluginClient
import RulesSystemtest.Coordinator.Service
import RulesSystemtest.Coordinator.Daemon
import RulesSystemtest.Coordinator.Steps
import RulesSystemtest.Coordinator.Custody
import RulesSystemtest.Coordinator.Provisioning
import RulesSystemtest.Coordinator.History
import RulesSystemtest.Coordinator.LeaseTable
import RulesSystemtest.Coordinator.Instances
import RulesSystemtest.Coordinator.Slots
import RulesSystemtest.Coordinator.Replacement
import RulesSystemtest.Coordinator.Identity
import RulesSystemtest.Coordinator.Reuse
import RulesSystemtest.Coordinator.Cleanup
import RulesSystemtest.Coordinator.Scope
import RulesSystemtest.Coordinator.Shadow
import RulesSystemtest.Coordinator.Isolation
import RulesSystemtest.Coordinator.Independence
import RulesSystemtest.Coordinator.Release
import RulesSystemtest.Coordinator.Images
import RulesSystemtest.Runner.Env
import RulesSystemtest.Runner.Unmarshal
import RulesSystemtest.Runner.Ports
import RulesSystemtest.Runner.Config
import RulesSystemtest.Runner.UnmarshalConfig
import RulesSystemtest.Runner.Client
import RulesSystemtest.Runner.Trace
import RulesSystemtest.Runner.Lease
import RulesSystemtest.Runner.Acquisition
import RulesSystemtest.Runner.Exec
import RulesSystemtest.Runner.Run
import RulesSystemtest.Runner.Handouts
import RulesSystemtest.Runner.Verdict
import RulesSystemtest.Runner.Endpoints
import RulesSystemtest.Runner.ChildEnv
import RulesSystemtest.Runner.Schedule
import RulesSystemtest.Runner.Heartbeat
import RulesSystemtest.Runner.Stepwise
import RulesSystemtest.Runner.Untimed
import RulesSystemtest.Runner.Adequacy
import RulesSystemtest.Runner.Hosts
import RulesSystemtest.Runner.Injected
import RulesSystemtest.Rules.Systemtest
import RulesSystemtest.Rules.Runs
import RulesSystemtest.Launch.Processes
import RulesSystemtest.Launch.SingleInstance
import RulesSystemtest.Plugins.Dummy
import RulesSystemtest.Deployment.Protocol
import RulesSystemtest.Deployment.Steps
import RulesSystemtest.Deployment.Answers
import RulesSystemtest.Deployment.Wiring
import RulesSystemtest.Deployment.Places
import RulesSystemtest.Deployment.Requests
import RulesSystemtest.Deployment.Accounting
import RulesSystemtest.Deployment.Holders
import RulesSystemtest.Deployment.Reservations
import RulesSystemtest.Deployment.Runners
import RulesSystemtest.Deployment.Delivery
import RulesSystemtest.Deployment.Progress
