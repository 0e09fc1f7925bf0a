import BlockFlow.Path

/-! # Names of tasks, ports and files

All names are made from a node's id, its kind and the names of its inputs and outputs.  Ports are
named from the id alone; tasks and files also carry the kind.  The parts are joined by hyphens and
may contain hyphens themselves, so two nodes can meet in one name; a graph in which that happens is
refused before anything is compiled. -/

namespace BlockFlow.Naming

/-! ## Tasks -/

/-- The task that runs a node's block program. -/
def processTask (id kind : String) : String := kind ++ "-" ++ id

/-- The task that writes a node's state. -/
def stateTask (id kind : String) : String := kind ++ "-" ++ id ++ "-state"

/-! ## Ports -/

/-- The port at which a process task reads the node's state. -/
def stateIn (id : String) : String := id ++ "-state-in"

/-- The port at which a state task writes the node's state. -/
def stateOut (id : String) : String := id ++ "-state-out"

/-- The port of the schema of an input. -/
def schemaIn (id input : String) : String := id ++ "-" ++ input ++ ".input.schema"

/-- The port of the schema of an output. -/
def schemaOut (id output : String) : String := id ++ "-" ++ output ++ ".output.schema"

/-- The port of the instance of an input. -/
def instanceIn (id input : String) : String := id ++ "-" ++ input ++ ".input.instance"

/-- The port of the instance of an output. -/
def instanceOut (id output : String) : String := id ++ "-" ++ output ++ ".output.instance"

/-! ## Files -/

/-- The file name of a node's state. -/
def stateFile (id kind : String) : String := kind ++ "-" ++ id ++ ".state.json"

/-- The file name of the schema of an output. -/
def schemaFile (id kind output : String) : String := kind ++ "-" ++ id ++ "-" ++ output ++ ".schema"

/-- The file name of the instance of an output. -/
def instanceFile (id kind output : String) : String :=
  kind ++ "-" ++ id ++ "-" ++ output ++ ".instance"

/-- The file of a node's state below a directory. -/
def statePath (directory : Path) (id kind : String) : Path :=
  Path.join directory (stateFile id kind)

/-- The file of the schema of an output below a directory. -/
def schemaPath (directory : Path) (id kind output : String) : Path :=
  Path.join directory (schemaFile id kind output)

/-- The file of the instance of an output below a directory. -/
def instancePath (directory : Path) (id kind output : String) : Path :=
  Path.join directory (instanceFile id kind output)

/-! ## Placeholders -/

/-- What stands in a command for the file at an input port. -/
def inputPlaceholder (port : String) : String := "\x7bi:" ++ port ++ "\x7d"

/-- What stands in a command for the file at an output port. -/
def outputPlaceholder (port : String) : String := "\x7bo:" ++ port ++ "\x7d"

end BlockFlow.Naming
