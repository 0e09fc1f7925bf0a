import BlockFlow.Files.Tree
import BlockFlow.Graph.Document

/-! # Loading graphs from files -/

namespace BlockFlow

/-- Why a graph cannot be loaded. -/
inductive LoadError where
  /-- The text is no graph document. -/
  | document (cause : JsonError)
  /-- The file at this path is no graph document. -/
  | file (path : Path) (cause : JsonError)
  /-- The file at this path cannot be read. -/
  | unreadable (path : Path) (cause : FileError)
  deriving Inhabited

/-- What was being done when the error arose, outermost first. -/
def LoadError.context : LoadError → List String
  | .document _ => ["Failed to deserialize graph JSON"]
  | .file path _ => ["Failed to load graph from " ++ path, "Failed to deserialize graph JSON"]
  | .unreadable path _ => ["Failed to read graph file from " ++ path]

/-- What went wrong, after everything that was being done. -/
def LoadError.cause : LoadError → String
  | .document cause | .file _ cause => cause.message
  | .unreadable _ cause => cause.message

namespace Graph

/-- The graph in a text. -/
def ofText (text : String) : Except LoadError Graph :=
  match parse text with
  | .ok g => .ok g
  | .error e => .error (.document e)

/-- The graph in the file that a path names, seen from a directory. -/
def load (files : FileTree) (directory path : Path) : Except LoadError Graph :=
  match files.readText (Path.join directory path) with
  | .error e => .error (.unreadable path e)
  | .ok text =>
    match parse text with
    | .ok g => .ok g
    | .error e => .error (.file path e)

end Graph

end BlockFlow
