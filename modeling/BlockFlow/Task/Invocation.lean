import BlockFlow.Config.Basic
import BlockFlow.Graph.Basic
import BlockFlow.Mode
import BlockFlow.Naming
import BlockFlow.Shell.Quote

/-! # The command line of a block program

A command starts with the interpreter and the program.  Then come the flags, each of which is there
even if nothing follows it: the state, the input schemas, the input instances, the output schemas
and the output instances.  The instance flags are there in evaluating runs only.  After each flag
but the first stands `name=file` for every input or output, in the order of the names; the files
are holes of a template. -/

namespace BlockFlow.Invocation

/-- The text after a flag for one name. -/
def assignment (placeholder : String → String) (name : String) : String :=
  -- The path that replaces the placeholder is quoted when the template is filled.
  Shell.quote name ++ "=" ++ placeholder name

/-- A flag, with an assignment for every name. -/
def flag (text : String) (names : List String) (placeholder : String → String) : String :=
  " ".intercalate (text :: names.map (assignment placeholder))

/-- The parts of the command for a node, to be joined by blanks. -/
def parts (modules : BlockModules) (id : NodeId) (node : Node) (mode : Mode) : List String :=
  let inputFlag (text : String) (port : String → String → String) :=
    flag text node.inputNames (fun n => Naming.inputPlaceholder (port id n))
  let outputFlag (text : String) (port : String → String → String) :=
    flag text node.outputNames (fun n => Naming.outputPlaceholder (port id n))
  let ifInstances (part : String) := if mode.withInstances then [part] else []
  [Shell.quote modules.interpreter,
    Shell.quote (modules.programPath node.kind mode.name),
    "--state " ++ Naming.inputPlaceholder (Naming.stateIn id),
    inputFlag "--input-schemas" Naming.schemaIn]
    ++ ifInstances (inputFlag "--input-instances" Naming.instanceIn)
    ++ [outputFlag "--output-schemas" Naming.schemaOut]
    ++ ifInstances (outputFlag "--output-instances" Naming.instanceOut)

/-- The command for a node. -/
def command (modules : BlockModules) (id : NodeId) (node : Node) (mode : Mode) : String :=
  " ".intercalate (parts modules id node mode)

end BlockFlow.Invocation
