import BlockFlow.Config.Document
import BlockFlow.Engine.Probe
import BlockFlow.Graph.Builder
import BlockFlow.Main
import BlockFlow.Proofs.Engine.Lifecycle
import BlockFlow.Proofs.Engine.Staging
import BlockFlow.Proofs.Engine.Turns
import BlockFlow.Proofs.Engine.Unpublished
import BlockFlow.Proofs.Graph.Building
import BlockFlow.Proofs.Graph.Collisions
import BlockFlow.Proofs.Graph.Content
import BlockFlow.Proofs.Graph.Conventions
import BlockFlow.Proofs.Graph.Cycles
import BlockFlow.Proofs.Graph.Documents
import BlockFlow.Proofs.Graph.Modes
import BlockFlow.Proofs.Graph.Programs
import BlockFlow.Proofs.Graph.Rules
import BlockFlow.Proofs.Graph.Wiring
import BlockFlow.Proofs.Plan.Exactness
import BlockFlow.Proofs.Shell.RoundTrip
import BlockFlow.Proofs.Template.Command
import BlockFlow.Proofs.Template.Substitution
import BlockFlow.Proofs.Workflow.Aborts
import BlockFlow.Proofs.Workflow.Arguments
import BlockFlow.Proofs.Workflow.Commands
import BlockFlow.Proofs.Workflow.Agreement
import BlockFlow.Proofs.Workflow.Failures
import BlockFlow.Proofs.Workflow.Skips
import BlockFlow.Proofs.Workflow.Frame
import BlockFlow.Proofs.Workflow.FreshRuns
import BlockFlow.Proofs.Workflow.Reruns
import BlockFlow.Proofs.Workflow.States
