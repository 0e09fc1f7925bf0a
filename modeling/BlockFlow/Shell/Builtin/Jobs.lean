import BlockFlow.Shell.Builtin.Basic

/-! # Builtin commands for signals and jobs

`trap` says what is done when a signal comes, `kill` sends one, `wait` waits for jobs, and `jobs`
lists them. -/

namespace BlockFlow.Shell.Builtin

/-! ## Traps -/

/-- The number that stands for a signal, or for none if it is zero. -/
def signalNumber? (name : Bytes) : Option Nat :=
  if name.isEmpty || !name.all isDecimal || Signal.greatest < decimal name then none
  else some (decimal name)

/-- The signal of this name or number; zero stands for none. -/
def signal? (name : Bytes) : Option Nat :=
  (signalNumber? name).or ((Signal.find? (textOf name)).map Signal.number)

/-- The condition of this name or number; zero stands for the end of the shell. -/
def condition? (name : Bytes) : Option String :=
  if (textOf name).toUpper = "EXIT" then some "EXIT"
  else
    match signal? name with
    | some 0 => some "EXIT"
    | some n => (Signal.ofNumber? n).map Signal.name
    | none => none

/-- The names of all conditions, in order. -/
def conditions : List String := "EXIT" :: Signal.all.map Signal.name

/-- Writes what is set for conditions. -/
def listTraps : Sh Unit := do
  let s ← get
  conditions.forM fun c =>
    match s.traps.get? c with
    | some action =>
      writeLine (bytesOf "trap -- " ++ quotedText (bytesOf action) ++ bytesOf (" " ++ c))
    | none => return

/-- Sets what is done on conditions; nothing stands for what is usual. -/
def setTraps (action : Option String) : List Bytes → Sh Flow
  | [] => finish 0
  | c :: cs => do
    match condition? c with
    | none => do
      writeText 2 ("trap: " ++ textOf c ++ ": bad trap\n")
      finish 1
    | some name => do
      modify fun s => { s with
        traps := match action with
          | some a => s.traps.insert name a
          | none => s.traps.erase name }
      setTraps action cs

/-- Sets or lists what is done on conditions. -/
def trap : Builtin := fun args => do
  let (_, operands) ← plainSwitches [] (if args.head? = some [0x2D] then [0x2D, 0x2D] :: args
    else args)
  match operands with
  | [] => do
    listTraps
    finish 0
  | [c] => setTraps none [c]
  | action :: cs =>
    if (signalNumber? action).isSome then setTraps none operands
    else setTraps (if action = [0x2D] then none else some (textOf action)) cs

/-! ## Jobs -/

/-- The job that a text names: a percent sign with a number, or with a sign for the last one or the
one before. -/
def job (text : Bytes) : Sh Job := do
  let s ← get
  let found : Option Job := match text.drop 1 with
    | [] | [0x25] | [0x2B] => s.jobs.head?
    | [0x2D] => s.jobs[1]?
    | digits => if digits.all isDecimal then s.jobs.find? (fun j => j.number = decimal digits)
      else none
  match found with
  | some j => return j
  | none =>
    if (text.drop 1).isEmpty || text = [0x25, 0x25] || text = [0x25, 0x2B] then
      refuse 2 "No current job"
    else refuse 2 ("No such job: " ++ textOf text)

/-- Whether a text names a job. -/
def namesJob (text : Bytes) : Bool := text.head? = some 0x25

/-- Notes that somebody has waited for jobs. -/
def markWaited (wanted : Job → Bool) : Sh Unit :=
  modify fun s => { s with
    jobs := s.jobs.map (fun j => if wanted j then { j with waited := true } else j) }

/-- Whether a signal has come for which something is set. -/
def hasPending (s : Session) (sys : System) : Bool :=
  (sys.process s.self).signals.any fun n =>
    match Signal.ofNumber? n with
    | some g => s.traps.get? g.name |>.any (· ≠ "")
    | none => false

/-- Waits for processes; a signal for which something is set ends the waiting with its status. -/
def waitFor (ids : List Nat) : Sh (Option Nat) := do
  let s ← get
  waitUntil none (fun sys => ids.all sys.hasEnded || hasPending s sys)
  let sys ← Sh.system
  if ids.all sys.hasEnded then return none
  else return ((sys.process s.self).signals.head?).map (128 + ·)

/-- Waits for one job; its status is that of its last process. -/
def waitForJob (j : Job) : Sh Nat := do
  match ← waitFor j.processes with
  | some n => return n
  | none => do
    let sys ← Sh.system
    if !j.waited then j.processes.forM (fun p => Child.describe (Child.ending sys p))
    markWaited (fun k => k.number = j.number)
    return (Child.ending sys j.last).status

/-- Waits for jobs, or for all of them. -/
def wait : Builtin := fun args => do
  let (_, operands) ← plainSwitches [] args
  if operands.isEmpty then
    let n ← waitFor ((← get).jobs.flatMap Job.processes)
    if n.isNone then markWaited (fun _ => true)
    finish (n.getD 0)
  else
    let status ← operands.foldlM (fun _ t => do
      if namesJob t then waitForJob (← job t)
      else
        let n ← number t
        match (← get).jobs.find? (fun j => j.processes.contains n) with
        | some j => waitForJob j
        | none => return 127) 0
    finish status

/-- How a job is listed. -/
def statusText (sys : System) (j : Job) : String :=
  let e := Child.ending sys j.last
  if !j.processes.all sys.hasEnded then "Running"
  else
    match e.killedBy.bind Signal.ofNumber? with
    | some g => g.description
    | none => if e.status = 0 then "Done" else "Done(" ++ toString e.status ++ ")"

/-- Lists a job, and forgets it if it has ended; `given` are the switches. -/
def listJob (given : List Char) (j : Job) : Sh Unit := do
  let s ← get
  let sys ← Sh.system
  let first := toString (j.processes.headD 0)
  if given.contains 'p' then writeLine (bytesOf first)
  else
    let rank := if (s.jobs.head?.map Job.number) = some j.number then "+"
      else if (s.jobs[1]?.map Job.number) = some j.number then "-" else " "
    let pid := if given.contains 'l' then first ++ " " else ""
    let text := statusText sys j
    let blanks := String.ofList (List.replicate (27 - text.length) ' ')
    writeLine (bytesOf ("[" ++ toString j.number ++ "] " ++ rank ++ " " ++ pid ++ text ++ blanks))
    if j.processes.all sys.hasEnded then
      modify fun s => { s with jobs := s.jobs.filter (fun k => k.number ≠ j.number) }

/-- Lists jobs. -/
def jobs : Builtin := fun args => do
  let (given, operands) ← plainSwitches ['l', 'p'] args
  if operands.isEmpty then (← get).jobs.forM (listJob given)
  else operands.forM fun t => do listJob given (← job t)
  finish 0

/-- Brings jobs to the front or the back, which needs a terminal. -/
def resume : Builtin := fun args => do
  let j ← job ((args.head?).getD [0x25])
  if j.processes.isEmpty then finish 0
  else refuse 2 "job (null) not created under job control"

/-! ## Signals -/

/-- How `kill` is used. -/
def killUsage : String :=
  "Usage: kill [-s sigspec | -signum | -sigspec] [pid | job]... or\nkill -l [exitstatus]"

/-- Writes the names of all signals, or of the one that an exit status tells of. -/
def listSignals : List Bytes → Sh Flow
  | [] => do
    writeText 1 "0\n"
    Signal.all.forM fun g => writeText 1 (g.name ++ "\n")
    finish 0
  | a :: _ => do
    let n ← number a
    let n' := if 128 < n then n - 128 else n
    match if n' < 65 then Signal.ofNumber? n' else none with
    | some g => do
      writeText 1 (g.name ++ "\n")
      finish 0
    | none => refuse 2 ("invalid signal number or exit status: " ++ textOf a)

/-- Sends a signal to processes; zero only asks whether they are there. -/
def sendTo (signal : Nat) : List Bytes → Nat → Sh Flow
  | [], status => finish status
  | t :: ts, status => do
    let ids ← if namesJob t then do
        discard (job t)
        pure []
      else if t.head? = some 0x2D then do
        discard (number (t.drop 1))
        pure []
      else do pure [← number t]
    let there ← ids.mapM fun id => Sh.onSystem fun sys =>
      if signal = 0 then (sys.isLiving id, sys) else sys.send id signal
    notice
    if !ids.isEmpty && there.all (fun b => b) then sendTo signal ts status
    else do
      complain "No such process\n"
      sendTo signal ts 1

/-- The signal that the last of some switches names. -/
def signalOf (given : List (Char × Bytes)) : Sh (Option Nat) :=
  (given.filter (fun g => g.1 = 's')).foldlM (fun _ g =>
    match signal? g.2 with
    | some n => return some n
    | none => refuse 2 ("invalid signal number or name: " ++ textOf g.2)) none

/-- Sends a signal, or lists signals. -/
def kill : Builtin := fun args => do
  let short : Option Nat := match args with
    | (0x2D :: name) :: _ => signal? name
    | _ => none
  let (signal, lists, targets) ← match short with
    | some n => do pure (some n, false, args.drop 1)
    | none => do
      let (given, operands) ← switches [('l', false), ('s', true)] args
      pure (← signalOf given, given.any (fun g => g.1 = 'l'), operands)
  if lists then
    if signal.isSome then refuse 2 killUsage else listSignals targets
  else if targets.isEmpty then refuse 2 killUsage
  else sendTo (signal.getD Signal.terminate.number) targets 0

end BlockFlow.Shell.Builtin
