import BlockFlow.Shell.Interpreter
import BlockFlow.Task.Run

/-! # Running the commands of tasks

A command is given to a shell as a script, in the directory of its task.  Nothing can be read from
its input, and what it writes, on either output, is kept.  The command is over when every process
that it has started is. -/

namespace BlockFlow.Shell

/-- The script for a command: both outputs go to the same place. -/
def scriptFor (command : String) : String := "exec 2>&1\n" ++ command

/-- The process of the command itself. -/
def mainProcess : Nat := 1

/-- The pipe whose content is kept, and the one whose content is not. -/
def outputPipe : Nat := 1
def errorPipe : Nat := 2

/-- The descriptors' channels at the start. -/
def firstChannels : SortedMap Nat Channel :=
  SortedMap.ofList [(0, .null), (1, .sink outputPipe), (2, .sink errorPipe)]

/-- A system at the start of a command. -/
def System.start (files : FileTree) : System where
  files := files
  pipes := SortedMap.ofList [(outputPipe, { bounded := false }), (errorPipe, { bounded := false })]
  processes := SortedMap.ofList [(mainProcess, { channels := firstChannels.values })]

/-- The environment of a command: variables that every command sees. -/
def environment (directory : Path) : NameMap Variable :=
  let seen (value : String) : Variable := { value := some (bytesOf value), exported := true }
  SortedMap.ofList [
    ("HOME", seen "/root"), ("PATH", seen Lookup.usualPath), ("PWD", seen directory)]

/-- A session at the start of a command. -/
def Session.start (name : String) (directory : Path) : Session where
  directory := directory
  name := name
  bindings := environment directory
  channels := firstChannels
  self := mainProcess
  shellId := mainProcess
  command := some name

/-- How many times processes take turns at most. -/
def maxSwitches : Nat := 100000000

/-- The system after a program has run to its end, with all that it has started. -/
def runToEnd (files : FileTree) (l : Launch) (program : String) : System :=
  let exec := Interpreter.execute Interpreter.maxLevels
  let arguments := [bytesOf "-c", Text.encoded (scriptFor l.command)]
  let main := discard (Child.complete mainProcess (Startup.work exec program arguments))
  let thread := (main (.start l.shell l.directory) (.start files)).thread (fun _ sys => sys)
  let (sys, waiting) := thread.advance 0 []
  Thread.runAll maxSwitches 0 sys waiting

/-- The program that a shell is, or why it cannot be started. -/
def programOf (files : FileTree) (l : Launch) : Except FileError String :=
  let isPath := l.shell.toList.contains '/'
  let paths := if isPath then [Path.join l.directory l.shell]
    else (Path.splitOn ':' Lookup.usualPath.toList).map (fun d =>
      Path.join (String.ofList d) l.shell)
  match if l.shell = "" then none else paths.findSome? Installed.programAt? with
  | some program => .ok program
  | none =>
    if isPath && (files.stat (Path.join l.directory l.shell)).toBool then .error .permissionDenied
    else .error .notFound

/-- Runs a command to its end. -/
def runCommand (l : Launch) (files : FileTree) :
    Except FileError (FileTree × CommandResult) := do
  if (l.shell ++ l.command).toList.contains '\x00' then throw .invalidInput
  let sys := runToEnd files l (← programOf files l)
  let output := ((sys.pipes.get? outputPipe).getD {}).data
  return (sys.files, { succeeded := (sys.process mainProcess).ending = some 0, output })

/-- Runs commands, each in one step. -/
def launcher : Launcher := fun l => Fiber.attempt (runCommand l)

end BlockFlow.Shell
