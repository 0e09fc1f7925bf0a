import BlockFlow.Shell.Process
import BlockFlow.Shell.Script
import BlockFlow.Shell.Signal
import BlockFlow.Shell.System

/-! # What a running shell knows

A `Session` holds what belongs to one shell: its parameters and variables, its functions, and the
channels behind its file descriptors.  A computation of a shell, `Sh`, changes the session and the
system that it shares with others, may wait, and may be interrupted. -/

namespace BlockFlow.Shell

/-- A variable. -/
structure Variable where
  value : Option Bytes := none
  /-- Whether commands see it. -/
  exported : Bool := false
  /-- Whether it cannot be changed. -/
  constant : Bool := false
  deriving Inhabited

/-- A setting of a shell, with the letter that stands for it. -/
structure Setting where
  name : String
  letter : Option Char
  deriving DecidableEq, Inhabited, Repr

/-- The settings there are. -/
def Setting.all : List Setting := [
  ⟨"errexit", some 'e'⟩, ⟨"noglob", some 'f'⟩, ⟨"ignoreeof", some 'I'⟩,
  ⟨"interactive", some 'i'⟩, ⟨"monitor", some 'm'⟩, ⟨"noexec", some 'n'⟩, ⟨"stdin", some 's'⟩,
  ⟨"xtrace", some 'x'⟩, ⟨"verbose", some 'v'⟩, ⟨"vi", some 'V'⟩, ⟨"emacs", some 'E'⟩,
  ⟨"noclobber", some 'C'⟩, ⟨"allexport", some 'a'⟩, ⟨"notify", some 'b'⟩,
  ⟨"nounset", some 'u'⟩, ⟨"privileged", some 'p'⟩, ⟨"nolog", none⟩, ⟨"debug", none⟩]

/-- What something was before it became local. -/
inductive Hidden where
  | variable_ (name : String) (was : Option Variable)
  | settings (were : List String)
  deriving Inhabited

/-- Processes that were started together and not waited for. -/
structure Job where
  /-- What the job is called, among the jobs of a shell. -/
  number : Nat
  processes : List Nat
  /-- Whether somebody has waited for its end. -/
  waited : Bool := false
  deriving Inhabited

/-- The process whose end and status count for the job. -/
def Job.last (j : Job) : Nat := j.processes.getLastD 0

/-- A program that has been found in one of the directories of `PATH`. -/
structure Found where
  name : String
  /-- Whether the working directory has changed since, so that it will be looked for again. -/
  stale : Bool := false
  deriving DecidableEq, Inhabited, Repr

/-- The state of a shell. -/
structure Session where
  /-- The working directory. -/
  directory : Path
  /-- The name under which the shell or its script was started. -/
  name : String
  arguments : List Bytes := []
  bindings : NameMap Variable := ∅
  functions : NameMap Command := ∅
  /-- The texts that stand for other texts at the beginning of a command. -/
  aliases : List (String × String) := []
  /-- What to run on a condition. -/
  traps : NameMap String := ∅
  /-- The names of the settings that are on. -/
  settings : List String := []
  /-- The exit status of the last command. -/
  status : Nat := 0
  /-- The exit status before the trap that is being carried out. -/
  trapped : Option Nat := none
  /-- The exit status of the last substitution in the current command. -/
  substituted : Nat := 0
  /-- How many loops are open. -/
  loops : Nat := 0
  /-- Whether a function is being run. -/
  inFunction : Bool := false
  /-- How many calls of functions have begun and not ended; one that was refused never ends. -/
  calls : Nat := 0
  /-- What is given back when commands and functions end, the last thing first. -/
  hidden : List Hidden := []
  /-- The programs that have been found, in the order in which they were. -/
  found : List Found := []
  channels : SortedMap Nat Channel := ∅
  /-- The process that runs the shell. -/
  self : Nat := 1
  /-- The process that the shell is known by. -/
  shellId : Nat := 1
  /-- The process that was started last without being waited for. -/
  lastJob : Option Nat := none
  /-- What was started and not waited for, the last job first. -/
  jobs : List Job := []
  /-- The argument that the next option is looked for in, and the place in it. -/
  option : Nat × Option Nat := (1, none)
  /-- The permissions that new files lack. -/
  umask : Nat := 18
  /-- The line of the command that is being carried out. -/
  line : Nat := 1
  /-- The line up to which the script has been read. -/
  reached : Nat := 1
  /-- The line up to which the file has been read that the shell takes its commands from. -/
  reachedInFile : Nat := 1
  /-- The here-documents of the scripts that have been read. -/
  documents : Array Word := #[]
  /-- The builtin command that is being carried out. -/
  command : Option String := none
  /-- What a program has still to write to its standard output. -/
  unwritten : Bytes := []
  /-- What a program has read from its standard input without using it. -/
  unread : Bytes := []
  deriving Inhabited

/-- What ends a computation before its end. -/
inductive Interrupt where
  /-- An error, about which everything has been said. -/
  | fault
  /-- A signal that ends the process. -/
  | killed (signal : Nat)
  deriving DecidableEq, Inhabited, Repr

/-- A computation of a shell. -/
def Sh (α : Type) : Type := Session → System → Process System (Except Interrupt α × Session)

namespace Sh

variable {α β : Type}

instance : Monad Sh where
  pure a := fun s sys => .done sys (.ok a, s)
  bind m f := fun s sys => (m s sys).bind fun r sys =>
    match r with
    | (.ok a, s) => f a s sys
    | (.error e, s) => .done sys (.error e, s)

instance : MonadStateOf Session Sh where
  get := fun s sys => .done sys (.ok s, s)
  set s := fun _ sys => .done sys (.ok (), s)
  modifyGet f := fun s sys => let r := f s; .done sys (.ok r.1, r.2)

instance : MonadExceptOf Interrupt Sh where
  throw e := fun s sys => .done sys (.error e, s)
  tryCatch m handle := fun s sys => (m s sys).bind fun r sys =>
    match r with
    | (.error e, s) => handle e s sys
    | r => .done sys r

instance : Inhabited (Sh α) := ⟨fun s sys => .done sys (.error .fault, s)⟩

/-- The system. -/
def system : Sh System := fun s sys => .done sys (.ok sys, s)

/-- Changes the system. -/
def onSystem (f : System → α × System) : Sh α := fun s sys =>
  let r := f sys
  .done r.2 (.ok r.1, s)

/-- Waits until a condition holds, or for so long if a time is given. -/
def pause (time : Option Nat) (ready : System → Bool) : Sh Unit := fun s sys =>
  .pause sys time ready (fun sys => .done sys (.ok (), s))

/-- Starts a computation beside this one, from the same session. -/
def spawn (delay : Nat) (body : Sh Unit) : Sh Unit := fun s sys =>
  .spawn sys delay (fun sys => (body s sys).thread (fun _ sys => sys))
    (fun sys => .done sys (.ok (), s))

/-- What a computation comes to, or what has interrupted it. -/
def outcome (m : Sh α) : Sh (Except Interrupt α) := fun s sys =>
  (m s sys).bind fun r sys => .done sys (.ok r.1, r.2)

/-- Goes on with what a computation has come to. -/
def ofOutcome : Except Interrupt α → Sh α
  | .ok a => pure a
  | .error e => throw e

end Sh

/-- How a command ends. -/
inductive Flow where
  /-- The next command is due. -/
  | next
  /-- The shell ends. -/
  | exit
  /-- The function or sourced script ends. -/
  | leave
  /-- So many loops end. -/
  | escape (loops : Nat)
  /-- So many loops less one end, and the last one goes on. -/
  | repeat_ (loops : Nat)
  deriving DecidableEq, Inhabited

/-! ## Settings, status and signals -/

/-- Whether a setting is on. -/
def Session.has (s : Session) (setting : String) : Bool := s.settings.contains setting

/-- Sets the exit status. -/
def setStatus (n : Nat) : Sh Unit := modify fun s => { s with status := n }

/-- Whether a signal ends the shell. -/
def Session.isFatal (s : Session) (signal : Nat) : Bool :=
  match Signal.ofNumber? signal with
  | some g => g.endsProcess && (g.name = "KILL" || !s.traps.contains g.name)
  | none => false

/-- Whether a signal has come that ends the shell. -/
def Session.isDoomed (s : Session) (sys : System) : Bool :=
  (sys.process s.self).signals.any s.isFatal

/-- Ends the process if a signal has come that does so. -/
def notice : Sh Unit := do
  let s ← get
  let sys ← Sh.system
  match (sys.process s.self).signals.find? s.isFatal with
  | some n => throw (.killed n)
  | none => return

/-- Waits until a condition holds or time is over; a signal may end the process meanwhile. -/
def waitUntil (time : Option Nat) (ready : System → Bool) : Sh Unit := do
  let s ← get
  Sh.pause time (fun sys => ready sys || s.isDoomed sys)
  notice

/-! ## Channels -/

/-- Lets a descriptor lead to a channel. -/
def setChannel (descriptor : Nat) (c : Channel) : Sh Unit :=
  modify fun s => { s with channels := s.channels.insert descriptor c }

/-- Fails because nobody reads what is written; that is a reason to be killed, unless it is
expected. -/
def writeInVain : Sh (Except FileError Unit) := do
  let s ← get
  let name := (Signal.ofNumber? Signal.brokenPipe).map Signal.name
  match name.bind s.traps.get? with
  | none => throw (.killed Signal.brokenPipe)
  | some _ => do
    Sh.onSystem fun sys => ((), (sys.send s.self Signal.brokenPipe).2)
    return .error .brokenPipe

/-- Writes bytes to a pipe, and waits until it takes more. -/
def writePipe (pipe : Nat) (bytes : Bytes) : Sh (Except FileError Unit) := do
  let sys ← Sh.system
  let bounded := ((sys.pipes.get? pipe).getD {}).bounded
  if bytes.isEmpty then return .ok ()
  else if bounded && !sys.isHeld (.source pipe) then writeInVain
  else do
    Sh.onSystem fun sys => ((), sys.pour pipe bytes)
    let full (sys : System) : Bool := System.pipeCapacity < sys.waiting pipe
    if !bounded || !full (← Sh.system) then return .ok ()
    else do
      waitUntil none (fun sys => !full sys || !sys.isHeld (.source pipe))
      if full (← Sh.system) then writeInVain else return .ok ()

/-- Writes bytes to a channel. -/
def writeChannel (bytes : Bytes) : Channel → Sh (Except FileError Unit)
  | .source _ | .directory => return .error .badDescriptor
  | .null | .zeros false => return .ok ()
  | .zeros true => return if bytes.isEmpty then .ok () else .error .noSpace
  | .file id =>
    Sh.onSystem fun sys =>
      match sys.opened.get? id with
      | some f =>
        if f.writable then (.ok (), sys.writeFile id f bytes) else (.error .badDescriptor, sys)
      | none => (.error .badDescriptor, sys)
  | .sink pipe => writePipe pipe bytes

/-- Writes bytes to a descriptor. -/
def write (descriptor : Nat) (bytes : Bytes) : Sh (Except FileError Unit) := do
  match (← get).channels.get? descriptor with
  | none => return .error .badDescriptor
  | some c => writeChannel bytes c

/-- Writes a text, as far as that is possible. -/
def writeText (descriptor : Nat) (s : String) : Sh Unit := discard (write descriptor (bytesOf s))

/-- Takes what can be read from an open file, at most `limit` bytes of it. -/
def takeFromFile (id limit : Nat) (sys : System) : Except FileError Bytes × System :=
  match sys.opened.get? id with
  | none => (.error .badDescriptor, sys)
  | some f =>
    if !f.readable then (.error .badDescriptor, sys)
    -- A file that has been removed is not looked for among the files.
    else if f.kept.isNone && sys.files.get? f.at_ = some .directory then (.error .isADirectory, sys)
    else
      let (taken, sys) := sys.readFile id f limit
      (.ok taken, sys)

/-- Takes what can be read from a channel, at most `limit` bytes of it; nothing, if there is no
more. -/
def readChannel (limit : Nat) : Channel → Sh (Except FileError Bytes)
  | .sink _ => return .error .badDescriptor
  | .directory => return .error .isADirectory
  | .null => return .ok []
  | .zeros _ => return .ok (List.replicate limit 0)
  | .file id => Sh.onSystem (takeFromFile id limit)
  | .source pipe => do
    waitUntil none (fun sys => 0 < sys.waiting pipe || !sys.isHeld (.sink pipe))
    Sh.onSystem fun sys =>
      let (taken, sys) := sys.draw pipe limit
      (.ok taken, sys)

/-- Takes what can be read from a descriptor. -/
def readSome (descriptor limit : Nat) : Sh (Except FileError Bytes) := do
  match (← get).channels.get? descriptor with
  | none => return .error .badDescriptor
  | some c => readChannel limit c

/-- Gives bytes back that were read too much, if the channel leads to a file. -/
def giveBack (count : Nat) : Channel → Sh Unit
  | .file id =>
    Sh.onSystem fun sys =>
      match sys.opened.get? id with
      | some f => ((), { sys with
          opened := sys.opened.insert id { f with position := f.position - count } })
      | none => ((), sys)
  | _ => return

/-- How many bytes are read at once. -/
def blockSize : Nat := 65536

/-- How many blocks are read at most. -/
def maxBlocks : Nat := 1000000

/-- Everything that can be read from a channel, in so many blocks at most. -/
def readAll (c : Channel) : Nat → Sh (Except FileError Bytes)
  | 0 => return .ok []
  | blocks + 1 => do
    match ← readChannel blockSize c with
    | .error e => return .error e
    | .ok [] => return .ok []
    | .ok bytes => return (← readAll c blocks).map (bytes ++ ·)

/-! ## Files -/

/-- The files. -/
def files : Sh FileTree := do return (← Sh.system).files

/-- A path seen from the working directory. -/
def pathOf (b : Bytes) : Sh Path := do
  let p := textOf b
  let s ← get
  return if p = "" then "" else Path.join s.directory p

/-- Changes the files, unless the change fails. -/
def changeFiles (f : FileTree → Except FileError FileTree) : Sh (Except FileError Unit) :=
  Sh.onSystem fun sys =>
    match f sys.files with
    | .ok files => (.ok (), sys.withFiles files)
    | .error e => (.error e, sys)

/-! ## Complaints -/

/-- Writes what is wrong to the standard error stream. -/
def complain (what : String) : Sh Unit := do
  let s ← get
  let about := match s.command with
    | some c => c ++ ": "
    | none => ""
  writeText 2 (s.name ++ ": " ++ toString s.line ++ ": " ++ about ++ what ++ "\n")

/-- Complains, and ends what is being done. -/
def refuse {α : Type} (status : Nat) (what : String) : Sh α := do
  complain what
  setStatus status
  throw .fault

/-! ## Parameters -/

/-- What is known about a variable. -/
def binding (name : String) : Sh Variable := do return ((← get).bindings.get? name).getD {}

/-- The value of a variable. -/
def lookUp? (name : String) : Sh (Option Bytes) := do return (← binding name).value

/-- The state after a variable has changed: with another `PATH`, no program has been found yet. -/
def Session.withBinding (s : Session) (name : String) (v : Option Variable) : Session :=
  { s with
    bindings := match v with
      | some v => s.bindings.insert name v
      | none => s.bindings.erase name
    found := if name = "PATH" then [] else s.found }

/-- Changes what is known about a variable, but not its value. -/
def markVariable (name : String) (change : Variable → Variable) : Sh Unit := do
  let v ← binding name
  modify fun s => { s with bindings := s.bindings.insert name (change v) }

/-- Lets commands see a variable. -/
def Variable.seen (v : Variable) : Variable := { v with exported := true }

/-- Whether a byte is blank. -/
def isBlank (b : UInt8) : Bool := b = 0x20 || (0x09 ≤ b && b ≤ 0x0D)

/-- Whether a byte is a decimal digit. -/
def isDecimal (b : UInt8) : Bool := 0x30 ≤ b && b ≤ 0x39

/-- The value of decimal digits. -/
def decimal (ds : Bytes) : Nat := ds.foldl (fun n d => n * 10 + (d.toNat - 0x30)) 0

/-- The whole number that a text means, if it is one: digits, perhaps after a sign, between
blanks. -/
def integer? (b : Bytes) : Option Int :=
  let text := b.dropWhile isBlank
  let negative := text.head? = some 0x2D
  let digits := if negative || text.head? = some 0x2B then text.drop 1 else text
  let ds := digits.takeWhile isDecimal
  if ds.isEmpty || !(digits.drop ds.length).all isBlank then none
  else some (if negative then -(decimal ds : Int) else decimal ds)

/-- The greatest number that an argument may be. -/
def greatestArgument : Nat := 2147483647

/-- The number that an argument is. -/
def number (b : Bytes) : Sh Nat :=
  match integer? b with
  | some (.ofNat n) =>
    if n ≤ greatestArgument then pure n else refuse 2 ("Illegal number: " ++ textOf b)
  | _ => refuse 2 ("Illegal number: " ++ textOf b)

/-- Goes back to the first option of the arguments that a variable's new value counts. -/
def restartOptions (value : Bytes) : Sh Unit := do
  let n ← number value
  modify fun s => { s with option := (max n 1, none) }

/-- Gives a variable a value, unless it cannot be changed. -/
def assign (name : String) (value : Bytes) : Sh Unit := do
  let v ← binding name
  if v.constant then refuse 2 (name ++ ": is read only")
  if name = "OPTIND" then restartOptions value
  modify fun s => s.withBinding name
    (some { v with value := some value, exported := v.exported || s.has "allexport" })

/-- Hides what is known about a variable until it is given back. -/
def hide (name : String) : Sh Unit :=
  modify fun s => { s with hidden := .variable_ name (s.bindings.get? name) :: s.hidden }

/-- Whether a text can be the name of a variable, or it is refused. -/
def checkName (name : String) : Sh Unit := do
  if !isName name then refuse 2 (name ++ ": bad variable name")

/-- Gives back what was hidden. -/
def reveal : Hidden → Sh Unit
  | .variable_ name none => do
    checkName name
    modify fun s => s.withBinding name none
  | .variable_ name (some v) => do
    if name = "OPTIND" then restartOptions (v.value.getD [])
    modify fun s => s.withBinding name (some v)
  | .settings were => modify fun s => { s with settings := were }

/-- Gives back what was hidden last, until so many things are left. -/
def giveBackTo (count : Nat) : Sh Unit := do
  let s ← get
  let n := s.hidden.length - count
  set { s with hidden := s.hidden.drop n }
  (s.hidden.take n).forM reveal

/-- Takes the value of a variable away. -/
def unassign (name : String) : Sh Unit := do
  if (← binding name).constant then refuse 2 (name ++ ": is read only")
  if name = "OPTIND" then restartOptions []
  modify fun s => s.withBinding name none

/-- The bytes that separate fields, unless others are given. -/
def blanks : Bytes := [0x20, 0x09, 0x0A]

/-- The bytes that separate fields. -/
def separators : Sh Bytes := do return (← lookUp? "IFS").getD blanks

end BlockFlow.Shell
