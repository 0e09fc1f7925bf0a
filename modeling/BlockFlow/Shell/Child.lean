import BlockFlow.Shell.Session

/-! # Processes that a shell starts

A child begins with a copy of the session and has channels of its own.  A shell may wait for it at
once, as it does for a utility or a subshell, or let it run beside itself.  What a child does to its
session is lost; what it does to the system stays. -/

namespace BlockFlow.Shell

/-- How a process has ended. -/
structure Ending where
  status : Nat
  /-- The signal that has ended it. -/
  killedBy : Option Nat := none
  deriving DecidableEq, Inhabited, Repr

namespace Child

/-- The time, in microseconds, that it takes to start a process. -/
def startTime : Nat := 200

/-- The time, in microseconds, that it takes to start a program. -/
def programTime : Nat := 1000

/-- Waits for a time. -/
def delay (time : Nat) : Sh Unit := waitUntil (some time) (fun _ => false)

/-- The traps that a child keeps: what is ignored stays ignored. -/
def keptTraps (traps : NameMap String) : NameMap String :=
  traps.filter (fun name action => action = "" && name ≠ "EXIT")

/-- The session of a subshell. -/
def subshell (s : Session) : Session :=
  { s with traps := keptTraps s.traps, jobs := [], reached := s.reachedInFile }

/-- The session of a process that is not waited for. -/
def unattended (s : Session) : Session :=
  let s := subshell s
  { s with
    traps := (s.traps.insert "INT" "").insert "QUIT" ""
    channels := s.channels.insert 0 .null }

/-- Carries out what a process does, and notes its end in the system. -/
def complete (id : Nat) (body : Sh Nat) : Sh Ending := do
  let r ← Sh.outcome body
  let s ← get
  let ending : Ending := match r with
    | .ok n => ⟨n % 256, none⟩
    | .error .fault => ⟨s.status % 256, none⟩
    | .error (.killed signal) => ⟨128 + signal, some signal⟩
  Sh.onSystem fun sys => (ending, sys.ended id ending.status ending.killedBy)

/-- How a process has ended. -/
def ending (sys : System) (id : Nat) : Ending :=
  ⟨(sys.process id).ending.getD 127, (sys.process id).killedBy⟩

/-- Frees the number of the first job that has been waited for. -/
def reuse (sys : System) (s : Session) : Session :=
  let numbers := (List.range (s.jobs.length + 1)).map (· + 1)
  let isOver (j : Job) : Bool := j.waited && j.processes.all sys.hasEnded
  match numbers.find? (fun n => s.jobs.all (fun j => j.number ≠ n || isOver j)) with
  | some n => { s with jobs := s.jobs.filter (fun j => j.number ≠ n) }
  | none => s

/-- Runs a child to its end. -/
def run (prepare : Session → Session) (body : Sh Nat) : Sh Ending := do
  modify (reuse (← Sh.system))
  let saved ← get
  let inner := prepare saved
  let id ← Sh.onSystem fun sys => sys.addProcess inner.channels.values
  set { inner with self := id }
  let ending ← complete id body
  set saved
  Sh.onSystem fun sys => ((), sys.forget id)
  notice
  return ending

/-- Starts a child that runs beside the shell. -/
def start (prepare : Session → Session) (body : Sh Nat) : Sh Nat := do
  let inner := prepare (← get)
  let id ← Sh.onSystem fun sys => sys.addProcess inner.channels.values
  Sh.spawn startTime do
    set { inner with self := id }
    discard (complete id do
      notice
      body)
  return id

/-- Waits for children that run beside the shell. -/
def await (ids : List Nat) : Sh (List Ending) := do
  waitUntil none (fun sys => ids.all sys.hasEnded)
  let sys ← Sh.system
  return ids.map (ending sys)

/-- Says which signal has ended a process. -/
def describe (e : Ending) : Sh Unit := do
  match e.killedBy.bind Signal.ofNumber? with
  | some g => if g.description ≠ "" then writeText 2 (g.description ++ "\n")
  | none => return

/-- Makes the new job of some processes. -/
def addJob (processes : List Nat) : Sh Unit := do
  modify (reuse (← Sh.system))
  modify fun s =>
    let numbers := (List.range (s.jobs.length + 1)).map (· + 1)
    let free := numbers.find? (fun n => s.jobs.all (fun j => j.number ≠ n))
    { s with
      jobs := { number := free.getD 1, processes } :: s.jobs
      lastJob := processes.getLast? }

end Child

end BlockFlow.Shell
