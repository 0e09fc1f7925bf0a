import BlockFlow.Files.Tree
import BlockFlow.Shell.Pattern

/-! # What processes share

A `System` holds the files, the pipes, the files that are open, and the processes with the channels
they hold.  A pipe is open for reading, or for writing, as long as a living process holds that end.
An open file has a position, which everyone shares who got the channel from the same opening. -/

namespace BlockFlow.Shell

/-- Bytes on their way from writers to readers. -/
structure Pipe where
  data : ByteArray := .empty
  /-- How many bytes have been read. -/
  position : Nat := 0
  /-- Whether writers wait for readers; otherwise everything is collected. -/
  bounded : Bool := true
  deriving Inhabited

/-- The number of bytes that can be read. -/
def Pipe.waiting (p : Pipe) : Nat := p.data.size - p.position

/-- A file that is open. -/
structure OpenFile where
  at_ : Location
  position : Nat := 0
  readable : Bool := false
  writable : Bool := false
  /-- Whether it is always written at its end. -/
  appends : Bool := false
  /-- The content, once the file has no name any more. -/
  kept : Option ByteArray := none
  deriving Inhabited

/-- What a file descriptor leads to. -/
inductive Channel where
  /-- Nothing comes from it, and what goes to it is lost. -/
  | null
  /-- Zeros come from it without end, and what goes to it is lost unless it is `full`. -/
  | zeros (full : Bool)
  /-- A directory that every system has. -/
  | directory
  /-- The end of a pipe that is read. -/
  | source (pipe : Nat)
  /-- The end of a pipe that is written. -/
  | sink (pipe : Nat)
  | file (id : Nat)
  deriving DecidableEq, Inhabited, Repr

/-- What others see of a process. -/
structure ProcessState where
  channels : List Channel := []
  /-- The signals that have been sent to it and not been noticed yet. -/
  signals : List Nat := []
  /-- Its exit status, once it has ended. -/
  ending : Option Nat := none
  /-- The signal that has ended it. -/
  killedBy : Option Nat := none
  deriving Inhabited

/-- What processes share. -/
structure System where
  files : FileTree
  pipes : SortedMap Nat Pipe := ∅
  opened : SortedMap Nat OpenFile := ∅
  processes : SortedMap Nat ProcessState := ∅
  /-- Greater than every number that is in use. -/
  fresh : Nat := 1000
  deriving Inhabited

namespace System

/-- How many bytes a pipe takes before its writers wait. -/
def pipeCapacity : Nat := 65536

/-- The state of a process; one that is not known has nothing. -/
def process (s : System) (id : Nat) : ProcessState := (s.processes.get? id).getD {}

/-- Changes the state of a process. -/
def onProcess (s : System) (id : Nat) (f : ProcessState → ProcessState) : System :=
  { s with processes := s.processes.insert id (f (s.process id)) }

/-- Whether a process has ended. -/
def hasEnded (s : System) (id : Nat) : Bool := (s.process id).ending.isSome

/-- Whether a living process holds a channel. -/
def isHeld (s : System) (c : Channel) : Bool :=
  s.processes.values.any (fun p => p.ending.isNone && p.channels.contains c)

/-- The number of bytes in a pipe that can be read. -/
def waiting (s : System) (pipe : Nat) : Nat := ((s.pipes.get? pipe).getD {}).waiting

/-- Appends bytes to a pipe. -/
def pour (s : System) (pipe : Nat) (bytes : Bytes) : System :=
  let p := (s.pipes.get? pipe).getD {}
  { s with pipes := s.pipes.insert pipe { p with data := p.data ++ ⟨bytes.toArray⟩ } }

/-- Takes bytes out of a pipe, at most so many. -/
def draw (s : System) (pipe limit : Nat) : Bytes × System :=
  let p := (s.pipes.get? pipe).getD {}
  let n := min limit p.waiting
  let taken := (p.data.extract p.position (p.position + n)).data.toList
  let p := if n = p.waiting && p.bounded then { p with data := .empty, position := 0 }
    else { p with position := p.position + n }
  (taken, { s with pipes := s.pipes.insert pipe p })

/-- The content of an open file. -/
def content (s : System) (f : OpenFile) : ByteArray :=
  match f.kept, s.files.get? f.at_ with
  | some content, _ => content
  | none, some (.file content) => content
  | none, _ => .empty

/-- Bytes written over a content from a position on; zeros fill a hole before it. -/
def overwritten (old : ByteArray) (position : Nat) (bytes : Bytes) : ByteArray :=
  if position = old.size then old ++ ⟨bytes.toArray⟩
  else
    let hole := List.replicate (position - old.size) (0 : UInt8)
    old.extract 0 position ++ ⟨(hole ++ bytes).toArray⟩ ++
      old.extract (position + bytes.length) old.size

/-- Writes bytes to an open file. -/
def writeFile (s : System) (id : Nat) (f : OpenFile) (bytes : Bytes) : System :=
  let old := s.content f
  let position := if f.appends then old.size else f.position
  let new := overwritten old position bytes
  let f := { f with position := position + bytes.length }
  match f.kept with
  | some _ => { s with opened := s.opened.insert id { f with kept := some new } }
  | none => { s with opened := s.opened.insert id f, files := s.files.fill f.at_ new }

/-- Reads bytes from an open file, at most so many. -/
def readFile (s : System) (id : Nat) (f : OpenFile) (limit : Nat) : Bytes × System :=
  let taken := ((s.content f).extract f.position (f.position + limit)).data.toList
  let f := { f with position := f.position + taken.length }
  (taken, { s with opened := s.opened.insert id f })

/-- Changes the files.  Open files whose names go away keep another name or else their content. -/
def withFiles (s : System) (files : FileTree) : System :=
  let opened := s.opened.mapValues fun f =>
    if f.kept.isSome then f
    else
      match files.get? f.at_, (s.files.namesOf f.at_).find? (fun l => (files.get? l).isSome) with
      | some (.file _), _ => f
      | _, some l => { f with at_ := l }
      | _, none => { f with kept := some (s.content f) }
  { s with files, opened }

/-- Makes a pipe. -/
def addPipe (s : System) (p : Pipe) : Nat × System :=
  (s.fresh, { s with pipes := s.pipes.insert s.fresh p, fresh := s.fresh + 1 })

/-- Opens a file. -/
def addFile (s : System) (f : OpenFile) : Nat × System :=
  (s.fresh, { s with opened := s.opened.insert s.fresh f, fresh := s.fresh + 1 })

/-- Makes a process that holds some channels. -/
def addProcess (s : System) (channels : List Channel) : Nat × System :=
  (s.fresh, { s.onProcess s.fresh (fun _ => { channels }) with fresh := s.fresh + 1 })

/-- Whether a process is living. -/
def isLiving (s : System) (id : Nat) : Bool :=
  (s.processes.get? id).any (fun p => p.ending.isNone)

/-- Sends a signal to a process; whether there is such a process. -/
def send (s : System) (id signal : Nat) : Bool × System :=
  if s.isLiving id then
    (true, s.onProcess id (fun p => { p with signals := p.signals ++ [signal] }))
  else (false, s)

/-- Takes away what is known about a process. -/
def forget (s : System) (id : Nat) : System := { s with processes := s.processes.erase id }

/-- Ends a process. -/
def ended (s : System) (id status : Nat) (killedBy : Option Nat) : System :=
  s.onProcess id (fun _ => { ending := some status, killedBy })

end System

end BlockFlow.Shell
