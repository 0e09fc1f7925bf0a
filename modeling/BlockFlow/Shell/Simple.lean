import BlockFlow.Shell.Startup

/-! # Simple commands

A simple command is carried out in this order: its words are expanded, then those of its
redirections, the redirections are carried out, the variables get their values, and what the first
word stands for is called. -/

namespace BlockFlow.Shell.Simple

open Evaluation

/-! ## Expansion -/

/-- The commands whose arguments may be assignments, which are not split. -/
def declaring : List String := ["export", "local", "readonly"]

/-- Whether words before another one make it an argument that may be an assignment. -/
def declares (before : List Bytes) : Bool :=
  match before.dropWhile (fun w => textOf w = "command") with
  | w :: _ => declaring.contains (textOf w)
  | [] => false

/-- The words that words expand to, after those that are known already. -/
def expandAfter (exec : Exec) : List Bytes → List Word → Sh (List Bytes)
  | before, [] => return before
  | before, w :: ws => do
    let run := substitute exec
    let isAssignment := (Reader.assignment? w).isSome && declares before
    let new ← if isAssignment then do pure [← Expansion.assigned run w] else Expansion.words run w
    expandAfter exec (before ++ new) ws

/-- Gives variables the values of assignments, one after the other; `give` does it. -/
def assignAll (exec : Exec) (give : String → Bytes → Sh Unit) :
    List (String × Word) → Sh (List Bytes)
  | [] => return []
  | (name, w) :: rest => do
    let value ← Expansion.assigned (substitute exec) w
    give name value
    return (bytesOf (name ++ "=") ++ value) :: (← assignAll exec give rest)

/-- Gives a variable a value until it is given back, and lets commands see it. -/
def assignHere (name : String) (value : Bytes) : Sh Unit := do
  hide name
  assign name value
  markVariable name Variable.seen

/-- What stands in front of a command that is traced. -/
def traceMark (exec : Exec) : Sh Bytes := do
  let value := textOf ((← lookUp? "PS4").getD [])
  let fuel := Reader.depthFor value.toList
  let read := Reader.parts (Reader.nested fuel) (.document none false) fuel .document []
  match read.run { rest := value.toList } with
  | .ok (w, _) => Expansion.value (substitute exec) w
  | .error _ => return bytesOf value

/-- Writes a command before it is carried out, if that is wanted, to the standard error stream that
there was before its redirections. -/
def trace (exec : Exec) (error : Option Channel) (words : List Bytes) : Sh Unit := do
  if (← get).has "xtrace" then
    let mark ← traceMark exec
    let s ← get
    if let some c := error then
      setChannel 2 c
      discard (write 2 (mark ++ (words.intersperse [0x20]).flatten ++ [0x0A]))
      set s

/-! ## What is called -/

/-- What a command calls. -/
inductive Callee where
  /-- Only assignments and redirections. -/
  | nothing
  | builtin (special : Bool) (name : String)
  | function (body : Command)
  | program (usual : Bool) (name : Bytes)

/-- Skips the switches of `command` that change how a command is looked up; nothing if there are
others, or if no command follows. -/
def withoutSwitches (usual : Bool) : List Bytes → Option (Bool × List Bytes)
  | [] => none
  | a :: rest =>
    match a with
    | [0x2D, 0x2D] => if rest.isEmpty then none else some (usual, rest)
    | [0x2D, 0x70] => withoutSwitches true rest
    | 0x2D :: _ :: _ => none
    | _ => some (usual, a :: rest)

/-- What words call, and with which arguments.  After `command` no function is called, and no
builtin command is special. -/
def callee (s : Session) (plain usual : Bool) : Nat → List Bytes → Callee × List Bytes
  | _, [] => (.nothing, [])
  | 0, _ => (.nothing, [])
  | fuel + 1, name :: args =>
    let text := textOf name
    let function := if plain then none else s.functions.get? text
    if Builtin.specialNames.contains text then (.builtin (!plain) text, args)
    else
      match function with
      | some body => (.function body, args)
      | none =>
        if text = "command" then
          match withoutSwitches usual args with
          | some (usual, rest) => callee s true usual fuel rest
          | none => (.builtin false text, args)
        else if Builtin.ordinaryNames.contains text then (.builtin false text, args)
        else (.program usual name, args)

/-! ## Programs -/

/-- Carries out a program in the current process. -/
def inPlace (exec : Exec) (name : Bytes) (program : String) (args : List Bytes) : Sh Nat := do
  Child.delay Child.programTime
  modify fun s => { s with command := some (textOf name) }
  Startup.work exec program args

/-- Lets a program take the place of the shell. -/
def become (exec : Exec) (name : Bytes) (program : String) (args : List Bytes) : Sh Flow := do
  modify fun s => { s with traps := Child.keptTraps s.traps }
  match ← Sh.outcome (inPlace exec name program args) with
  | .error (.killed n) => throw (.killed n)
  | .error .fault => return .exit
  | .ok n => do
    setStatus n
    return .exit

/-- Complains that there is no program. -/
def without (name : Bytes) (e : Lookup.Failure) : Sh Unit := do
  complain (textOf name ++ ": " ++ e.reason)
  setStatus (Lookup.statusOf name e)

/-- Runs a program, in the place of the shell if the process ends with it anyway. -/
def runProgram (exec : Exec) (mode : Mode) (usual : Bool) (name : Bytes) (args : List Bytes) :
    Sh Flow := do
  match ← Lookup.program? usual name with
  | .error e => do
    without name e
    return .next
  | .ok program => do
    if mode.final && (← get).traps.values.all (fun action => action = "") then
      become exec name program args
    else
      let ending ← Child.run Child.subshell (inPlace exec name program args)
      Child.describe ending
      Builtin.finish ending.status

/-- Lets a program take the place of the shell. -/
def exec_ (exec : Exec) : Builtin := fun args => do
  match if args.head? = some [0x2D, 0x2D] then args.drop 1 else args with
  | [] => Builtin.finish 0
  | name :: args => do
    match ← Lookup.program? false name with
    | .ok program => become exec name program args
    | .error e => do
      without name e
      return .exit

/-! ## Scripts inside scripts -/

/-- Runs its arguments as a script. -/
def eval (exec : Exec) (mode : Mode) : Builtin := fun args =>
  if args.isEmpty then Builtin.finish 0
  else runText exec { checked := mode.checked } (textOf (args.intersperse [0x20]).flatten)

/-- The name of a script in the first of some directories that has it. -/
def scriptIn (name : String) : List String → Sh (Option Bytes)
  | [] => return none
  | d :: ds => do
    let q := bytesOf (if d = "" then name else Path.join d name)
    match ← look true q with
    | .ok (.file _) => return some q
    | _ => scriptIn name ds

/-- Runs the script in a file in the current shell. -/
def source (exec : Exec) (mode : Mode) : Builtin := fun args => do
  match ← Builtin.plainSwitches [] args with
  | (_, []) => Builtin.finish 0
  | (_, name :: _) => do
    let found ← if Lookup.isPath name then pure (some name)
      else scriptIn (textOf name) (← Lookup.searchPath false)
    match found with
    | none => refuse 2 (textOf name ++ ": not found")
    | some f => do
      match ← open_ { readable := true } f with
      | .error e => refuse 2 (Redirect.cannotOpen f e)
      | .ok c => do
        let script := (← readAll c maxBlocks).toOption.getD []
        modify fun s => { s with command := some (textOf f) }
        match ← runText exec { checked := mode.checked } (Startup.scriptText script) with
        | .leave => return .next
        | flow => return flow

/-! ## Calls -/

/-- The builtin command of this name. -/
def builtin (exec : Exec) (mode : Mode) (name : String) : Builtin :=
  match name with
  | "." => source exec mode
  | "command" => Lookup.ofCommand
  | "eval" => eval exec mode
  | "exec" => exec_ exec
  | "hash" => Lookup.hash
  | "type" => Lookup.type_
  | _ =>
    let known := Builtin.special ++ Builtin.ordinary
    ((known.find? (fun b => b.1 = name)).map (·.2)).getD (Builtin.nothing 127)

/-- Carries out a builtin command.  What is wrong ends only the command, unless it is special. -/
def callBuiltin (exec : Exec) (mode : Mode) (special : Bool) (name : String) (args : List Bytes) :
    Sh Flow := do
  let before ← get
  set { before with command := some name }
  let r ← Sh.outcome (builtin exec mode name args)
  modify fun s => { s with command := before.command }
  match r with
  | .ok flow => return flow
  | .error .fault => do
    if special then throw .fault
    -- The command is over, and with it the variables that were set for it alone.
    giveBackTo before.hidden.length
    return .next
  | .error e => throw e

/-- So many calls of functions may be open. -/
def maxCalls : Nat := 1000

/-- Calls a function. -/
def callFunction (exec : Exec) (mode : Mode) (body : Command) (args : List Bytes) : Sh Flow := do
  modify fun s => { s with calls := s.calls + 1 }
  let before ← get
  if maxCalls < before.calls then
    refuse 2 ("Maximum function recursion depth (" ++ toString maxCalls ++ ") reached")
  set { before with arguments := args, loops := 0, inFunction := true, option := (1, none) }
  let r ← Sh.outcome (exec { checked := mode.checked } body)
  modify fun s => { s with
    arguments := before.arguments
    loops := before.loops
    inFunction := before.inFunction
    calls := s.calls - 1
    option := before.option }
  match r with
  | .ok .leave => return .next
  | r => Sh.ofOutcome r

/-- Calls what a command calls. -/
def call (exec : Exec) (mode : Mode) (args : List Bytes) : Callee → Sh Flow
  | .nothing => do Builtin.finish (← get).substituted
  | .builtin special name => callBuiltin exec mode special name args
  | .function body => callFunction exec mode body args
  | .program usual name => runProgram exec mode usual name args

/-- Carries out a simple command. -/
def carryOut (exec : Exec) (mode : Mode) (line : Nat) (as : List (String × Word))
    (ws : List Word) (rs : List (Redirection Word)) : Sh Flow := do
  modify fun s => { s with line, substituted := 0 }
  let words ← expandAfter exec [] ws
  let rs ← Redirect.expanded (substitute exec) rs
  let before ← get
  let (callee, args) := callee before false false (words.length + 1) words
  -- Assignments stay without a command or before a special one, and redirections after `exec`.
  let (stays, special, kept) : Bool × Bool × Bool := match callee with
    | .nothing => (true, false, false)
    | .builtin special name => (special, special, name = "exec")
    | _ => (false, false, false)
  let failure : Sh Flow := do
    setStatus 2
    if special then throw .fault
    return .next
  let flow ← withRedirections exec rs kept failure do
    let given ← assignAll exec (if stays then assign else assignHere) as
    trace exec (before.channels.get? 2) (given ++ words)
    call exec mode args callee
  if flow ≠ .exit && !stays then giveBackTo before.hidden.length
  return flow

end BlockFlow.Shell.Simple
