import BlockFlow.Shell.Evaluation
import BlockFlow.Shell.Lookup

/-! # Shells as programs

A shell that is started as a program reads its arguments: settings, and a script, which is an
argument, a file, or what can be read from the standard input. -/

namespace BlockFlow.Shell.Startup

/-- Where a shell finds its script. -/
inductive ScriptSource where
  | input
  | file (name : Bytes)
  | text (script : Bytes)

/-- How a shell is started. -/
structure Start where
  settings : List String := []
  /-- Whether the first operand is the script. -/
  ofText : Bool := false
  /-- Whether the script is read from the standard input. -/
  ofInput : Bool := false
  source : ScriptSource := .input
  /-- What the script knows as its own name. -/
  name : String
  arguments : List Bytes := []

/-- Turns a setting on or off. -/
def Start.turn (u : Start) (on : Bool) (name : String) : Start :=
  let others := u.settings.filter (· ≠ name)
  { u with settings := if on then name :: others else others }

/-- Reads letters after a sign; the result says whether the name of a setting is to follow. -/
def letters (on : Bool) : List Char → Start → Except String (Start × Bool)
  | [], u => .ok (u, false)
  | 'c' :: cs, u => letters on cs { u with ofText := true }
  | 's' :: cs, u => letters on cs { u.turn on "stdin" with ofInput := true }
  | 'o' :: cs, u => (letters on cs u).map (fun r => (r.1, true))
  | c :: cs, u =>
    match Setting.all.find? (fun t => t.letter = some c) with
    | some t => letters on cs (u.turn on t.name)
    | none => .error ("Illegal option -" ++ String.ofList [c])

/-- Reads the operands of a shell. -/
def operands (u : Start) (args : List Bytes) : Except String Start :=
  match args with
  | [] => if u.ofText then .error "-c requires an argument" else .ok u
  | a :: rest =>
    if u.ofText then
      .ok { u with
        source := .text a
        name := (rest.head?.map textOf).getD u.name
        arguments := rest.drop 1 }
    else if u.ofInput then .ok { u with arguments := args }
    else .ok { u with source := .file a, name := textOf a, arguments := rest }

/-- Reads the arguments of a shell. -/
def read (u : Start) : List Bytes → Except String Start
  | [] => operands u []
  | a :: rest => do
    match a with
    | [0x2D] | [0x2D, 0x2D] => operands u rest
    | sign :: ls =>
      if sign ≠ 0x2D && sign ≠ 0x2B then operands u (a :: rest)
      else
        let on := sign = 0x2D
        let (u, named) ← letters on (textOf ls).toList u
        match named, rest with
        | false, rest => read u rest
        | true, [] => operands u []
        | true, name :: rest =>
          match Setting.all.find? (fun t => t.name = textOf name) with
          | some t => read (u.turn on t.name) rest
          | none => throw ("Illegal option -o " ++ textOf name)
    | [] => operands u (a :: rest)

/-- The script of a shell. -/
def scriptOf : ScriptSource → Sh (Except FileError Bytes)
  | .text script => return .ok script
  | .input => do
    match (← get).channels.get? 0 with
    | some c => readAll c maxBlocks
    | none => return .ok []
  | .file f => do
    match ← open_ { readable := true } f with
    | .error e => return .error e
    | .ok c => do
      match ← readAll c maxBlocks with
      | .error _ => return .ok []
      | .ok bytes => return .ok bytes

/-- The script in a file, in which zeros do not count. -/
def scriptText (b : Bytes) : String := textOf (b.filter (· ≠ 0))

/-- The variables that every shell has at its start. -/
def firstBindings (parent : Nat) (directory : Path) : List (String × Variable) := [
  ("IFS", { value := some blanks }), ("OPTIND", { value := some (bytesOf "1") }),
  ("PATH", { value := some (bytesOf Lookup.usualPath), exported := true }),
  ("PPID", { value := some (bytesOf (toString parent)) }),
  ("PS1", { value := some (bytesOf "$ ") }), ("PS2", { value := some (bytesOf "> ") }),
  ("PS4", { value := some (bytesOf "+ ") }),
  ("PWD", { value := some (bytesOf directory), exported := true })]

/-- The session of a new shell, which sees the exported variables of another one. -/
def session (u : Start) (s : Session) : Session :=
  let seen := s.bindings.filter (fun name v => v.exported && name ≠ "IFS")
  let first := (firstBindings s.shellId s.directory).filter (fun b =>
    b.1 = "PPID" || b.1 = "OPTIND" || !seen.contains b.1)
  { directory := s.directory
    name := u.name
    arguments := u.arguments
    bindings := first.foldl (fun m b => m.insert b.1 b.2)
      (seen.mapValues (fun v => { v with constant := false }))
    traps := Child.keptTraps s.traps
    settings := u.settings
    channels := s.channels
    self := s.self
    shellId := s.self
    umask := s.umask }

/-- Runs a shell as a program. -/
def shell (exec : Exec) : Utilities.Utility := fun args => do
  let s ← get
  let name := s.command.getD "sh"
  match read { name } args with
  | .error what => do
    writeText 2 (name ++ ": 0: " ++ what ++ "\n")
    Utilities.quit 2
  | .ok u => do
    match ← scriptOf u.source with
    | .error e => do
      let reason := if e = .notFound || e = .notADirectory then "No such file" else e.reason
      writeText 2 (name ++ ": 0: cannot open " ++ u.name ++ ": " ++ reason ++ "\n")
      Utilities.quit 2
    | .ok script => do
      set (session u s)
      Evaluation.toEnd exec (Evaluation.runText exec {} (scriptText script) (!u.ofText))

/-- The work of a program: that of a shell, or that of a utility. -/
def work (exec : Exec) (program : String) : Utilities.Utility :=
  if Installed.shells.contains program then shell exec
  else ((Lookup.utilities.find? (fun u => u.1 = program)).map (·.2)).getD (fun _ => return 127)

end BlockFlow.Shell.Startup
