import BlockFlow.Shell.Simple

/-! # Running commands

`execute` runs a command; its fuel bounds how deep commands, functions and shells may be nested.
Every construct has a function of its own, which is given the means to run the commands inside it.
The stages of a pipeline are processes of their own, which run beside each other. -/

namespace BlockFlow.Shell.Interpreter

open Evaluation

/-! ## Lists and pipelines -/

/-- Ends the shell if a command has failed, the shell is to stop on errors, and nothing looks at
the failure. -/
def stopOnError (mode : Mode) (flow : Flow) : Sh Flow := do
  let s ← get
  if flow = .next && s.has "errexit" && !mode.checked && s.status ≠ 0 then return .exit
  else return flow

/-- Runs commands one after the other. -/
def sequence (exec : Exec) (mode : Mode) : List Command → Sh Flow
  | [] => return .next
  | [c] => exec mode c
  | c :: cs => do
    match ← exec { mode with final := false } c with
    | .next => sequence exec mode cs
    | flow => return flow

/-- Starts the stages of a pipeline; `prepare` makes the session of the first one, and each stage
reads what the one before it writes. -/
def startStages (exec : Exec) (mode : Mode) (prepare : Session → Session) :
    List Command → Sh (List Nat)
  | [] => return []
  | [last] => do return [← Child.start prepare (toEnd exec (exec { mode with final := true } last))]
  | first :: rest => do
    let pipe ← Sh.onSystem fun sys => sys.addPipe {}
    let id ← Child.start (fun s => withChannel 1 (.sink pipe) (prepare s))
      (toEnd exec (exec { mode with final := true } first))
    let ids ← startStages exec mode
      (fun s => withChannel 0 (.source pipe) (Child.subshell s)) rest
    return id :: ids

/-- Runs the stages of a pipeline; the status is that of the last one. -/
def stages (exec : Exec) (mode : Mode) (cs : List Command) : Sh Flow := do
  modify (Child.reuse (← Sh.system))
  cs.forM Lookup.prepare
  let ids ← startStages exec mode Child.subshell cs
  let endings ← Child.await ids
  Sh.onSystem fun sys => ((), ids.foldl System.forget sys)
  endings.forM Child.describe
  notice
  Builtin.finish ((endings.getLast?.map Ending.status).getD 0)

/-- Runs a pipeline. -/
def pipeline (exec : Exec) (mode : Mode) (negated : Bool) (cs : List Command) : Sh Flow := do
  let checked := mode.checked || negated
  let flow ← match cs with
    | [c] => exec { checked } c
    | cs => do afterCommand exec (← stages exec { checked } cs)
  if negated then
    if flow = .next then modify fun s => { s with status := if s.status = 0 then 1 else 0 }
    return flow
  else stopOnError mode flow

/-- Starts a command that is not waited for. -/
def background (exec : Exec) (body : Command) : Sh Flow := do
  let ids ← match body with
    | .pipeline false (first :: second :: rest) => do
      (first :: second :: rest).forM Lookup.prepare
      startStages exec {} Child.unattended (first :: second :: rest)
    | body => startStages exec {} Child.unattended [body]
  Child.addJob ids
  Builtin.finish 0

/-! ## Loops -/

/-- What the end of a loop's body means for the loop: how the script goes on if there is not
another turn. -/
def afterTurn : Flow → Option Flow
  | .next => none
  | .escape n => some (if n ≤ 1 then .next else .escape (n - 1))
  | .repeat_ n => if n ≤ 1 then none else some (.repeat_ (n - 1))
  | flow => some flow

/-- A loop is stopped after so many turns. -/
def maxTurns : Nat := 1000000

/-- The time, in microseconds, that a turn of a loop takes. -/
def turnTime : Nat := 2

/-- Runs the body of a loop as long as the condition holds, or fails to hold. -/
def turns (exec : Exec) (mode : Mode) (until_ : Bool) (condition body : Command) :
    Nat → Nat → Sh Flow
  | 0, status => Builtin.finish status
  | fuel + 1, status => do
    Child.delay turnTime
    match ← exec { checked := true } condition with
    | .next =>
      if ((← get).status = 0) = (until_ = true) then Builtin.finish status
      else do
        match afterTurn (← exec mode body) with
        | none => turns exec mode until_ condition body fuel (← get).status
        | some flow => return flow
    | flow =>
      match afterTurn flow with
      | none => turns exec mode until_ condition body fuel status
      | some flow => return flow

/-- Runs the body of a loop for every word. -/
def eachOf (exec : Exec) (mode : Mode) (name : String) (body : Command) : List Bytes → Sh Flow
  | [] => return .next
  | w :: ws => do
    assign name w
    match afterTurn (← exec mode body) with
    | none => eachOf exec mode name body ws
    | some flow => return flow

/-- Runs an action inside a loop. -/
def inLoop (body : Sh Flow) : Sh Flow := do
  modify fun s => { s with loops := s.loops + 1 }
  let flow ← body
  modify fun s => { s with loops := s.loops - 1 }
  return flow

/-! ## Choices -/

/-- Runs the body of a command; an empty one succeeds. -/
def branch (exec : Exec) (mode : Mode) : Command → Sh Flow
  | .sequence [] => Builtin.finish 0
  | body => exec mode body

/-- Whether one of these patterns matches. -/
def matchesAny (exec : Exec) (value : Bytes) : List Word → Sh Bool
  | [] => return false
  | p :: ps => do
    let marks ← Expansion.single (substitute exec) p
    if Pattern.accepts (Pattern.ofMarks marks) value then return true
    else matchesAny exec value ps

/-- Runs the body of the first branch that matches. -/
def firstMatch (exec : Exec) (mode : Mode) (value : Bytes) :
    List (List Word × Command) → Sh Flow
  | [] => Builtin.finish 0
  | (ps, body) :: rest => do
    if ← matchesAny exec value ps then branch exec mode body
    else firstMatch exec mode value rest

/-- Runs the second command if the status of the first one is as wanted. -/
def joined (exec : Exec) (mode : Mode) (wanted : Bool) (first second : Command) : Sh Flow := do
  match ← exec { checked := true } first with
  | .next => if ((← get).status = 0) = (wanted = true) then exec mode second else return .next
  | flow => return flow

/-! ## Commands -/

/-- The fields of several words. -/
def expandAll (exec : Exec) : List Word → Sh (List Bytes)
  | [] => return []
  | w :: ws => do
    let fields ← Expansion.words (substitute exec) w
    return fields ++ (← expandAll exec ws)

/-- Runs commands in a copy of the shell. -/
def subshell (exec : Exec) (mode : Mode) (body : Command) : Sh Flow := do
  -- The process ends with the command anyway, so no copy of it is needed.
  if mode.final && (← get).traps.isEmpty then
    let status ← toEnd exec (exec { mode with final := true } body)
    setStatus status
    return .exit
  else
    let ending ← isolated exec id (exec { mode with final := true } body)
    Child.describe ending
    Builtin.finish ending.status

/-- Runs a command under redirections. -/
def redirected (exec : Exec) (mode : Mode) (line : Nat) (body : Command)
    (rs : List (Redirection Word)) : Sh Flow := do
  modify fun s => { s with line }
  let rs ← Redirect.expanded (substitute exec) rs
  withRedirections exec rs false (do stopOnError mode (← Builtin.finish 2))
    (exec { mode with final := false } body)

/-- Runs a command; `exec` runs the commands inside it. -/
def executeWith (exec : Exec) (mode : Mode) : Command → Sh Flow
  | .simple line as ws rs => do
    let flow ← afterCommand exec (← Simple.carryOut exec mode line as ws rs)
    stopOnError mode flow
  | .pipeline negated cs => pipeline exec mode negated cs
  | .andThen a b => joined exec mode true a b
  | .orElse a b => joined exec mode false a b
  | .sequence cs => sequence exec mode cs
  | .subshell body => do
    let flow ← afterCommand exec (← subshell exec mode body)
    stopOnError mode flow
  | .background body => background exec body
  | .conditional condition body otherwise => do
    match ← exec { checked := true } condition with
    | .next => branch exec mode (if (← get).status = 0 then body else otherwise)
    | flow => return flow
  | .loop until_ condition body =>
    inLoop (turns exec { mode with final := false } until_ condition body maxTurns 0)
  | .each line name words body => do
    modify fun s => { s with line }
    let ws ← match words with
      | some ws => expandAll exec ws
      | none => pure (← get).arguments
    if ws.isEmpty then Builtin.finish 0
    else inLoop (eachOf exec { mode with final := false } name body ws)
  | .select line w branches => do
    modify fun s => { s with line }
    let value ← Expansion.value (substitute exec) w
    firstMatch exec mode value branches
  | .define name body => do
    Lookup.forget name
    modify fun s => { s with functions := s.functions.insert name body }
    Builtin.finish 0
  | .redirected line body rs => redirected exec mode line body rs

/-- Runs a command, unless commands are only to be read. -/
def executeOr (exec : Exec) (mode : Mode) (c : Command) : Sh Flow := do
  if (← get).has "noexec" then return .next else executeWith exec mode c

/-- Runs a command, with so many levels of nesting at most. -/
def execute : Nat → Exec
  | 0 => fun _ _ => refuse 2 "too many levels"
  | fuel + 1 => executeOr (execute fuel)

/-- Commands, functions and shells may be nested so deep. -/
def maxLevels : Nat := 10000

end BlockFlow.Shell.Interpreter
