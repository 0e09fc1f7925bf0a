import BlockFlow.Path

/-! # Configuration of a run -/

namespace BlockFlow

/-- Where block programs live and how they are started. -/
structure BlockModules where
  /-- The root of the installed modules. -/
  directory : Path := "node_modules"
  /-- The package below the root that holds one directory per kind. -/
  package : Path := "@underlay/pipeline-runtime/lib"
  /-- The program that is given a block program to run. -/
  interpreter : String := "node"
  /-- The file name extension of block programs. -/
  extension : String := "js"
  deriving DecidableEq, Inhabited, Repr

namespace BlockModules

/-- The directory that holds one directory per kind. -/
def packagePath (m : BlockModules) : Path := Path.join m.directory m.package

/-- The directory of the module for a kind. -/
def modulePath (m : BlockModules) (kind : String) : Path := Path.join m.packagePath kind

/-- The file of a kind's program of this name. -/
def programPath (m : BlockModules) (kind program : String) : Path :=
  Path.join (m.modulePath kind) (program ++ "." ++ m.extension)

end BlockModules

/-- How a graph is compiled and run. -/
structure Config where
  modules : BlockModules := {}
  /-- The program that runs commands. -/
  shell : String := "sh"
  /-- How many tasks may run at the same time. -/
  maxConcurrency : Nat := 4
  deriving DecidableEq, Inhabited, Repr

namespace Config

/-- The default configuration with modules below `directory`. -/
def ofDirectory (directory : Path) : Config := { modules := { directory } }

/-- Replaces the interpreter. -/
def withInterpreter (c : Config) (interpreter : String) : Config :=
  { c with modules := { c.modules with interpreter } }

/-- Replaces the file name extension of block programs. -/
def withExtension (c : Config) (extension : String) : Config :=
  { c with modules := { c.modules with extension } }

/-- Replaces the package. -/
def withPackage (c : Config) (package : Path) : Config :=
  { c with modules := { c.modules with package } }

/-- Replaces the shell. -/
def withShell (c : Config) (shell : String) : Config := { c with shell }

/-- Replaces the number of tasks that may run at the same time, which is at least one. -/
def withMaxConcurrency (c : Config) (maxConcurrency : Nat) : Config :=
  { c with maxConcurrency := max maxConcurrency 1 }

end Config

end BlockFlow
