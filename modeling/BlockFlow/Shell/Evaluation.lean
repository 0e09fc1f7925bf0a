import BlockFlow.Shell.Child
import BlockFlow.Shell.Reader.Command
import BlockFlow.Shell.Redirect

/-! # Running scripts, traps and subshells

What is needed to run commands inside other commands, given the means to run one command.

* `runText`     runs a script in the current shell
* `toEnd`       runs a shell to its end, with the trap that is set for it
* `isolated`    runs commands in a copy of the shell
* `substitute`  collects what commands write -/

namespace BlockFlow.Shell

/-- What is known about the place of a command. -/
structure Mode where
  /-- Whether its failure is looked at, so that it does not end the shell. -/
  checked : Bool := false
  /-- Whether the process ends with it, so that a program may take the place of the shell. -/
  final : Bool := false
  deriving Inhabited

/-- Runs a command. -/
abbrev Exec := Mode → Command → Sh Flow

namespace Evaluation

/-! ## Scripts -/

/-- Runs what is left of a script, line by line; `inFile` says that the shell takes its commands
from there, and the flag that something has been run before. -/
def runSource (exec : Exec) (mode : Mode) (inFile : Bool) : Nat → Bool → Source → Sh Flow
  | 0, _, _ => return .next
  | fuel + 1, begun, source => do
    let s ← get
    match Reader.next.run { source with aliases := s.aliases, documents := s.documents } with
    | .error e => do
      modify fun s => { s with line := e.line }
      refuse 2 e.what
    | .ok (none, _) => do
      if !begun then setStatus 0
      return .next
    | .ok (some c, source) => do
      modify fun s => { s with
        documents := source.documents
        reached := source.line
        reachedInFile := if inFile then source.line else s.reachedInFile }
      -- Only behind the last line does the process end.
      match ← exec { mode with final := mode.final && source.rest.isEmpty } c with
      | .next => runSource exec mode inFile fuel true source
      | flow => return flow

/-- Runs a script in the current shell. -/
def runText (exec : Exec) (mode : Mode) (script : String) (inFile : Bool := false) : Sh Flow := do
  let reached := (← get).reached
  let source : Source := { rest := script.toList }
  let r ← Sh.outcome (runSource exec mode inFile (script.length + 1) false source)
  modify fun s => { s with reached }
  Sh.ofOutcome r

/-! ## Traps -/

/-- Runs what is set for a signal; the status stays. -/
def runAction (exec : Exec) (action : String) : Sh Flow := do
  let before ← get
  set { before with trapped := some (before.trapped.getD before.status) }
  let flow ← runText exec {} action
  if flow = .next then
    modify fun s => { s with status := before.status, trapped := before.trapped }
  return flow

/-- Runs what is set for the signals that have come, for so many of them at most. -/
def runTraps (exec : Exec) : Nat → Sh Flow
  | 0 => return .next
  | fuel + 1 => do
    let s ← get
    match ((← Sh.system).process s.self).signals with
    | [] => return .next
    | n :: rest => do
      Sh.onSystem fun sys => ((), sys.onProcess s.self (fun p => { p with signals := rest }))
      match (Signal.ofNumber? n).bind (fun g => s.traps.get? g.name) with
      | none | some "" => runTraps exec fuel
      | some action => do
        match ← runAction exec action with
        | .next => runTraps exec fuel
        | flow => return flow

/-- How many signals are looked at after one command. -/
def maxSignals : Nat := 1000

/-- Goes on after a command, unless a trap says something else. -/
def afterCommand (exec : Exec) (flow : Flow) : Sh Flow := do
  if flow = .next then runTraps exec maxSignals else return flow

/-! ## Ends of shells -/

/-- Runs what is set for the end of a shell; the result is the exit status. -/
def leave (exec : Exec) : Sh Nat := do
  let s ← get
  match s.traps.get? "EXIT" with
  | none => return s.status
  | some action => do
    set { s with traps := s.traps.erase "EXIT", trapped := some s.status, command := none }
    match ← Sh.outcome (runText exec {} action) with
    | .error (.killed n) => throw (.killed n)
    | .ok .exit | .error .fault => return (← get).status
    | _ => return s.status

/-- Runs a shell to its end; the result is the exit status. -/
def toEnd (exec : Exec) (body : Sh Flow) : Sh Nat := do
  match ← Sh.outcome body with
  | .error (.killed n) => throw (.killed n)
  | _ => leave exec

/-! ## Subshells -/

/-- Runs commands in a copy of the shell. -/
def isolated (exec : Exec) (prepare : Session → Session) (body : Sh Flow) : Sh Ending :=
  Child.run (fun s => prepare (Child.subshell s)) do
    Child.delay Child.startTime
    toEnd exec body

/-- Lets one descriptor of a session lead to a channel. -/
def withChannel (descriptor : Nat) (c : Channel) (s : Session) : Session :=
  { s with channels := s.channels.insert descriptor c }

/-- What a command writes when it is run in a copy of the shell. -/
def substitute (exec : Exec) (c : Command) : Sh Bytes := do
  let pipe ← Sh.onSystem fun sys => sys.addPipe { bounded := false }
  let ending ← isolated exec (withChannel 1 (.sink pipe)) (exec { final := true } c)
  -- What the command has started may still be writing.
  waitUntil none (fun sys => !sys.isHeld (.sink pipe))
  modify fun s => { s with substituted := ending.status }
  Child.describe ending
  Sh.onSystem fun sys =>
    let (bytes, sys) := sys.draw pipe (sys.waiting pipe)
    (bytes, { sys with pipes := sys.pipes.erase pipe })

/-! ## Redirections -/

/-- Gives back the channels of some descriptors. -/
def restore (saved : SortedMap Nat Channel) (descriptors : List Nat) : Sh Unit :=
  modify fun s => { s with
    channels := descriptors.foldl (fun cs d =>
      match saved.get? d with
      | some c => cs.insert d c
      | none => cs.erase d) s.channels }

/-- Runs an action under redirections, which end with it unless they are kept.  If one of them
fails, something else is done in its place. -/
def withRedirections (exec : Exec) (rs : List (Redirection Bytes)) (kept : Bool)
    (otherwise body : Sh Flow) : Sh Flow := do
  if rs.isEmpty then body
  else
    let saved := (← get).channels
    let good ← Redirect.all (substitute exec) rs
    let r ← Sh.outcome (if good then body else otherwise)
    if good && kept then
      let s ← get
      Sh.onSystem fun sys =>
        ((), sys.onProcess s.self (fun p => { p with channels := s.channels.values }))
    else restore saved (rs.map Redirection.descriptor)
    Sh.ofOutcome r

end Evaluation

end BlockFlow.Shell
