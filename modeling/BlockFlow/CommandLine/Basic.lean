import BlockFlow.CommandLine.Arguments
import BlockFlow.Graph.Loading
import BlockFlow.Workflow

/-! # The command line

A call of the program loads a graph, runs it, and writes the failures as a JSON object.  It ends
with code 0 if the run gave a report, whatever failed in it, with code 1 if there was no report, and
with code 2 if its arguments could not be understood. -/

namespace BlockFlow.CommandLine

/-- Where the program is called. -/
structure Surroundings where
  /-- The working directory. -/
  directory : Path
  /-- The directory for temporary directories. -/
  temporary : Path
  launcher : Launcher

/-- How a call of the program ends. -/
inductive Outcome where
  /-- With a report. -/
  | completed (failures : FailureMap)
  /-- With an error: what was being done, outermost first, and the cause. -/
  | failed (chain : List String)
  /-- Before anything was done. -/
  | misused (cause : UsageError)

namespace Outcome

/-- The exit code. -/
def code : Outcome → Nat
  | .completed _ => 0
  | .failed _ => 1
  | .misused _ => 2

/-- The text of failures. -/
def failuresText (failures : FailureMap) : String :=
  String.ofList (Json.objectLines (failures.toList.map (fun e => (e.1, Json.quoteChars e.2))))

/-- What is written to the standard output. -/
def output : Outcome → String
  | .completed failures => failuresText failures ++ "\n"
  | _ => ""

/-- What is written to the standard error stream. -/
def complaint : Outcome → String
  | .completed _ => ""
  | .failed [] => "Error\n"
  | .failed (outermost :: causes) =>
    "Error: " ++ outermost ++ "\n" ++
      (if causes.isEmpty then "" else "\nCaused by:\n") ++
      String.join (causes.map (fun c => "    " ++ c ++ "\n"))
  | .misused cause => "error: " ++ cause.message ++ "\n"

end Outcome

/-- The configuration of a call. -/
def Options.config (o : Options) (directory : Path) : Config :=
  ((Config.ofDirectory ((Path.absolute? directory o.modules).getD o.modules)).withInterpreter
    o.interpreter).withShell o.shell |>.withMaxConcurrency o.concurrency

/-- Runs a graph below an output directory. -/
def runIn (at_ : Surroundings) (o : Options) (g : Graph) (out : Path) (files : FileTree) :
    FileTree × Outcome :=
  let w := Workflow.ofLauncher (o.config at_.directory) at_.launcher
  match w.run at_.directory o.mode g out files with
  | (files, .ok report) => (files, .completed report.failures)
  | (files, .error e) => (files, .failed [e.message, e.causeMessage])

/-- The stem of the names of temporary directories. -/
def temporaryStem : String := "workflow-"

/-- Runs a graph below a temporary directory, which is removed at the end. -/
def runTemporarily (at_ : Surroundings) (o : Options) (g : Graph) (files : FileTree) :
    FileTree × Outcome :=
  match files.mkdirFresh at_.temporary temporaryStem with
  | .error e =>
    (files, .failed ["Failed to create a temporary output directory", e.message])
  | .ok (files, out) =>
    let (files, outcome) := runIn at_ o g out files
    (files.removeAll out, outcome)

/-- Runs a graph as the options ask. -/
def runGraph (at_ : Surroundings) (o : Options) (g : Graph) (files : FileTree) :
    FileTree × Outcome :=
  match o.output with
  | none => runTemporarily at_ o g files
  | some out =>
    let place := Path.join at_.directory out
    if (files.stat place).toBool && !files.isDirectory place then
      (files, .failed ["Output path must be a directory: " ++ out])
    else runIn at_ o g out files

/-- The paths that a call looks at, with everything below them: the graph, the block programs and
the output directory. -/
def footprint (directory : Path) (args : List String) : List Path :=
  match Options.ofArguments args with
  | .error _ => []
  | .ok o =>
    let modules := (o.config directory).modules.packagePath
    ([o.graph, modules] ++ o.output.toList).map (Path.join directory)

/-- Carries a call of the program out. -/
def run (at_ : Surroundings) (args : List String) (files : FileTree) : FileTree × Outcome :=
  match Options.ofArguments args with
  | .error e => (files, .misused e)
  | .ok o =>
    match Graph.load files at_.directory o.graph with
    | .error e => (files, .failed (e.context ++ [e.cause]))
    | .ok g => runGraph at_ o g files

end BlockFlow.CommandLine
