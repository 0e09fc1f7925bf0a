import BlockFlow.Files.Tree

/-! # Errors that abort a run -/

namespace BlockFlow

/-- Why a run is aborted. -/
inductive ExecutionError where
  /-- A directory cannot be prepared. -/
  | setup (path : Path) (cause : FileError)
  /-- The shell for a command cannot be started. -/
  | spawn (task : String) (cause : FileError)
  /-- A task cannot reach its files. -/
  | io (task : String) (cause : FileError)
  /-- An input port refers to a task or an output port that does not exist. -/
  | unresolvedPort (task port : String)
  /-- A hole in a command has no file. -/
  | unresolvedPlaceholder (task placeholder : String)
  /-- Tasks wait for each other. -/
  | cycle (tasks : List String)
  deriving DecidableEq, Inhabited, Repr

/-- The wording of an error. -/
def ExecutionError.message : ExecutionError → String
  | .setup path cause => "failed to prepare directory " ++ path ++ ": " ++ cause.message
  | .spawn task cause => "task '" ++ task ++ "': could not start command: " ++ cause.message
  | .io task cause => "task '" ++ task ++ "': " ++ cause.message
  | .unresolvedPort task port =>
    "task '" ++ task ++ "': input port '" ++ port ++ "' refers to an unknown producer"
  | .unresolvedPlaceholder task placeholder =>
    "task '" ++ task ++ "': placeholder '" ++ placeholder ++ "' has no bound path"
  | .cycle tasks => "dependency cycle between tasks: " ++ ", ".intercalate tasks

end BlockFlow
