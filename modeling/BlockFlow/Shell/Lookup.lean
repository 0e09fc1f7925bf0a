import BlockFlow.Shell.Builtin.Table
import BlockFlow.Shell.Reader.Command
import BlockFlow.Shell.Utilities.Listing
import BlockFlow.Shell.Utilities.Moves
import BlockFlow.Shell.Utilities.Output
import BlockFlow.Shell.Utilities.Removal

/-! # What the names of commands mean

A name with a slash is the path of a program.  Another name is that of a special builtin command, a
function, another builtin command, or a program in one of the directories that `PATH` lists.

* `program?`  the program of a name, or why there is none
* `meaning`   what a name stands for -/

namespace BlockFlow.Shell.Lookup

/-- The utilities by name. -/
def utilities : List (String × Utilities.Utility) := [
  ("[", Utilities.testProgram true), ("cat", Utilities.cat), ("cp", Utilities.cp),
  ("echo", Utilities.echoProgram), ("false", fun _ => return 1), ("head", Utilities.head),
  ("ln", Utilities.ln), ("ls", Utilities.ls), ("mkdir", Utilities.mkdir), ("mv", Utilities.mv),
  ("printf", Utilities.printfProgram), ("pwd", Utilities.pwdProgram), ("rm", Utilities.rm),
  ("rmdir", Utilities.rmdir), ("sleep", Utilities.sleep), ("test", Utilities.testProgram false),
  ("touch", Utilities.touch), ("true", fun _ => return 0), ("yes", Utilities.yes)]

/-- The directories where programs are looked for if nothing else is said. -/
def usualPath : String := "/usr/local/sbin:/usr/local/bin:/usr/sbin:/usr/bin:/sbin:/bin"

/-- The directories where programs are looked for. -/
def searchPath (usual : Bool) : Sh (List String) := do
  let path ← if usual then pure usualPath else do pure (textOf ((← lookUp? "PATH").getD []))
  return (Path.splitOn ':' path.toList).map String.ofList

/-- Why a program cannot be run. -/
inductive Failure where
  | notFound
  | notPermitted
  deriving DecidableEq, Inhabited, Repr

/-- The wording of a failure. -/
def Failure.reason : Failure → String
  | .notFound => "not found"
  | .notPermitted => "Permission denied"

/-- The program at an absolute path, unless something of the run stands there. -/
def programAt (p : Path) : Sh (Except Failure String) := do
  match (← files).stat p with
  | .ok _ => return .error .notPermitted
  | .error _ =>
    match Installed.programAt? p, Installed.find? p with
    | some n, _ => return .ok n
    | none, some _ => return .error .notPermitted
    | none, none => return .error .notFound

/-- The path of a program in the first of some directories that has it. -/
def inDirectories (name : String) : List String → Sh (Except Failure Path)
  | [] => return .error .notFound
  | d :: ds => do
    let s ← get
    let q := if d = "" then name else Path.join d name
    let p := Path.join s.directory q
    match ← programAt p with
    | .ok _ => return .ok q
    | .error e => do
      match ← inDirectories name ds with
      | .ok q => return .ok q
      | .error later => return .error (if e = .notPermitted then e else later)

/-- Whether a name is the path of a program. -/
def isPath (name : Bytes) : Bool := name.contains 0x2F

/-- The exit status that tells of a failure. -/
def statusOf (name : Bytes) (e : Failure) : Nat :=
  if isPath name && e = .notPermitted then 126 else 127

/-- The path of a program. -/
def pathOf? (usual : Bool) (name : Bytes) : Sh (Except Failure Path) := do
  if name.isEmpty then return .error .notPermitted
  else if isPath name then
    let p ← pathOf name
    return (← programAt p).map (fun _ => textOf name)
  else inDirectories (textOf name) (← searchPath usual)

/-- Whether a program has been found before. -/
def isRemembered (name : String) : Sh Bool := do
  return (← get).found.any (fun f => f.name = name)

/-- Remembers that a program has been found. -/
def remember (name : String) : Sh Unit :=
  modify fun s => { s with
    found := if s.found.any (fun f => f.name = name)
      then s.found.map (fun f => if f.name = name then { name } else f)
      else s.found ++ [{ name }] }

/-- Forgets a program. -/
def forget (name : String) : Sh Unit :=
  modify fun s => { s with found := s.found.filter (fun f => f.name ≠ name) }

/-- Looks for a program, and remembers whether it has been found in a directory of `PATH`. -/
def search (usual : Bool) (name : Bytes) : Sh (Except Failure Path) := do
  let r ← pathOf? usual name
  if !usual && !isPath name then
    if r.toBool then remember (textOf name) else forget (textOf name)
  return r

/-- The name of the program that a name stands for. -/
def program? (usual : Bool) (name : Bytes) : Sh (Except Failure String) := do
  match ← search usual name with
  | .error e => return .error e
  | .ok p => programAt (Path.join (← get).directory p)

/-! ## Names -/

/-- What a name stands for. -/
inductive Meaning where
  | keyword
  | alias_ (text : String)
  | special
  | ordinary
  | function (body : Command)
  | program (path : String)
  | unknown

/-- What a name stands for when it is called. -/
def called (usual : Bool) (name : Bytes) : Sh Meaning := do
  let s ← get
  let text := textOf name
  if Builtin.specialNames.contains text then return .special
  match s.functions.get? text with
  | some body => return .function body
  | none =>
    if Builtin.ordinaryNames.contains text then return .ordinary
    else if isPath name then
      return if (← look true name).toBool then .program text else .unknown
    else
      match ← pathOf? usual name with
      | .ok p => return .program p
      | .error _ => return .unknown

/-- What a name stands for in a script. -/
def meaning (usual : Bool) (name : Bytes) : Sh Meaning := do
  let text := textOf name
  if Reader.keywords.contains text then return .keyword
  match (← get).aliases.find? (fun a => a.1 = text) with
  | some a => return .alias_ a.2
  | none => called usual name

/-- Says what a name stands for; whether it stands for anything. -/
def describe (usual : Bool) (name : Bytes) : Sh Bool := do
  let text := textOf name
  let wording ← match ← meaning usual name with
    | .keyword => pure " is a shell keyword"
    | .alias_ t => pure (" is an alias for " ++ t)
    | .special => pure " is a special shell builtin"
    | .ordinary => pure " is a shell builtin"
    | .function _ => pure " is a shell function"
    | .program p => do
      let tracked := !usual && (← isRemembered text)
      if !tracked then discard (search usual name)
      pure (" is " ++ (if tracked then "a tracked alias for " else "") ++ p)
    | .unknown => pure ": not found"
  writeText 1 (text ++ wording ++ "\n")
  return wording ≠ ": not found"

/-- Writes a name as it can be called; whether it stands for anything. -/
def writeCall (usual : Bool) (name : Bytes) : Sh Bool := do
  match ← meaning usual name with
  | .unknown => return false
  | .program p => do
    if !(← isRemembered (textOf name)) then discard (search usual name)
    writeText 1 (p ++ "\n")
    return true
  | .alias_ t => do
    writeText 1 ("alias " ++ textOf name ++ "=" ++ textOf (Builtin.quotedText (bytesOf t)) ++ "\n")
    return true
  | _ => do
    writeText 1 (textOf name ++ "\n")
    return true

/-- Says what names stand for. -/
def type_ : Builtin := fun args => do
  let known ← args.mapM (describe false)
  Builtin.finish (if known.all (fun b => b) then 0 else 127)

/-- Says what one name stands for. -/
def ofCommand : Builtin := fun args => do
  let (given, operands) ← Builtin.plainSwitches ['p', 'v', 'V'] args
  match operands with
  | [] => Builtin.finish 0
  | name :: _ => do
    let usual := given.contains 'p'
    let known ← if given.contains 'V' then describe usual name else writeCall usual name
    Builtin.finish (if known then 0 else 127)

/-- Writes the paths of the programs that have been found; a star marks those that will be looked
for again. -/
def listFound : Sh Unit := do
  let found := (← get).found
  let place (f : Found) : Nat := Builtin.placeIn 31 f.name
  (found.mergeSort (fun a b => decide (place a ≤ place b))).forM fun f => do
    match ← pathOf? false (bytesOf f.name) with
    | .ok p => writeText 1 (p ++ (if f.stale then "*" else "") ++ "\n")
    | .error _ => return

/-- Looks for a program that is not the path of one, from the start; whether that is in vain. -/
def isMissing (name : Bytes) : Sh Bool := do
  let text := textOf name
  let s ← get
  let known := Builtin.specialNames ++ Builtin.ordinaryNames
  if isPath name || known.contains text || (s.functions.get? text).isSome then return false
  forget text
  match ← search false name with
  | .ok _ => return false
  | .error e => do
    complain (text ++ ": " ++ e.reason)
    return true

/-- Looks for programs, or forgets those that have been found. -/
def hash : Builtin := fun args => do
  if (args.headD []).take 2 = bytesOf "-r" then
    modify fun s => { s with found := [] }
    Builtin.finish 0
  else
    let (_, operands) ← Builtin.plainSwitches [] args
    if operands.isEmpty then listFound
    let missing ← operands.filterM isMissing
    Builtin.finish (if missing.isEmpty then 0 else 1)

/-- Looks for the program that a command names, as far as its name is plain. -/
def prepare : Command → Sh Unit
  | .simple _ _ (w :: _) _ => do
    let name := bytesOf ((Reader.bare? w).getD "")
    if isName (textOf name) then
      match ← called false name with
      | .program _ => discard (search false name)
      | _ => return
  | _ => return

end BlockFlow.Shell.Lookup
