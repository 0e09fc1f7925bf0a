import BlockFlow.Shell.Builtin.Basic

/-! # Builtin commands for parameters and settings

`set` and `shift` change the arguments and the settings, and `getopts` goes through arguments. -/

namespace BlockFlow.Shell.Builtin

/-- Shifts the arguments. -/
def shift : Builtin := fun args => do
  let n ← match args with
    | [] => pure 1
    | a :: _ => number a
  let s ← get
  if s.arguments.length < n then refuse 2 "can't shift that many"
  set { s with arguments := s.arguments.drop n, option := (1, none) }
  finish 0

/-- Turns a setting on or off. -/
def turn (on : Bool) (name : String) : Sh Unit :=
  modify fun s =>
    let others := s.settings.filter (· ≠ name)
    { s with settings := if on then name :: others else others }

/-- Writes the settings, as a table or as commands that set them. -/
def listSettings (table : Bool) : Sh Unit := do
  let s ← get
  if table then writeText 1 "Current option settings\n"
  Setting.all.forM fun t =>
    if table then
      let blanks := String.ofList (List.replicate (16 - t.name.length) ' ')
      writeText 1 (t.name ++ blanks ++ (if s.has t.name then "on" else "off") ++ "\n")
    else writeText 1 ("set " ++ (if s.has t.name then "-" else "+") ++ "o " ++ t.name ++ "\n")

/-- Turns the settings of letters on or off; whether a name is to follow. -/
def turnLetters (on : Bool) : List Char → Sh Bool
  | [] => return false
  | c :: cs => do
    if c = 'o' then
      discard (turnLetters on cs)
      return true
    else
      match Setting.all.find? (fun t => t.letter = some c) with
      | some t => do
        turn on t.name
        turnLetters on cs
      | none => refuse 2 ("Illegal option -" ++ String.ofList [c])

/-- Turns the setting of a name on or off. -/
def turnNamed (on : Bool) (name : Bytes) : Sh Unit := do
  match Setting.all.find? (fun t => t.name = textOf name) with
  | some t => turn on t.name
  | none => refuse 2 ("Illegal option -o " ++ textOf name)

/-- Reads settings from arguments; what is left are the new arguments, if there are any. -/
def settings : List Bytes → Sh (Option (List Bytes))
  | [] => return none
  | a :: rest => do
    match a with
    | [0x2D, 0x2D] => return some rest
    | [0x2D] => do
      turn false "xtrace"
      turn false "verbose"
      return if rest.isEmpty then none else some rest
    | sign :: letters =>
      if sign ≠ 0x2D && sign ≠ 0x2B then return some (a :: rest)
      else
        let on := sign = 0x2D
        let named ← turnLetters on (textOf letters).toList
        match named, rest with
        | true, name :: rest => do
          turnNamed on name
          settings rest
        | true, [] => do
          listSettings on
          return none
        | false, rest => settings rest
    | [] => return some (a :: rest)

/-- Writes the variables with their values. -/
def listVariables : Sh Unit := do
  (← get).bindings.toList.forM fun (name, v) =>
    match v.value with
    | some b => writeLine (bytesOf (name ++ "=") ++ quotedText b)
    | none => return

/-- Changes settings and arguments. -/
def set_ : Builtin := fun args => do
  if args.isEmpty then listVariables
  match ← settings args with
  | some arguments => modify fun s => { s with arguments, option := (1, none) }
  | none => pure ()
  finish 0

/-! ## Options -/

/-- Where `getopts` is: the number of the next argument, and what is left of the current one. -/
structure Cursor where
  next : Nat
  rest : Bytes

/-- Whether a letter is an option, and whether it takes an argument. -/
def optionAt (known : Bytes) (c : UInt8) : Option Bool :=
  match known with
  | [] => none
  | k :: ks =>
    let takes := ks.head? = some 0x3A
    if k = c then some takes else optionAt (if takes then ks.drop 1 else ks) c
termination_by known.length
decreasing_by
  split <;> grind

/-- The next argument with options, or nothing at the end of them. -/
def wordAt (args : List Bytes) (next : Nat) : Option Cursor × Nat :=
  match args[next - 1]? with
  | some [0x2D, 0x2D] => (none, next + 1)
  | some (0x2D :: c :: cs) => (some ⟨next + 1, c :: cs⟩, next)
  | _ => (none, next)

/-- Gives a variable the letter that was found, and then remembers where `getopts` is. -/
def leaveOptions (name : Bytes) (letter : UInt8) (next : Nat) (offset : Option Nat) : Sh Flow := do
  assign "OPTIND" (bytesOf (toString next))
  assignTo name [letter]
  modify fun s => { s with option := (next, offset) }
  return .next

/-- Takes the next option from arguments.  If that fails, the next time begins with the first one
again. -/
def nextOption (known : Bytes) (name : Bytes) (args : List Bytes) : Sh Flow := do
  let s ← get
  let quiet := known.head? = some 0x3A
  let (next, offset) := s.option
  let (next, offset) := if args.length + 1 < next then (1, none) else (next, offset)
  let current : Bytes := match offset with
    | some n => if next ≤ 1 then [] else ((args[next - 2]?).getD []).drop n
    | none => []
  let (cursor, next) := if current.isEmpty then wordAt args next else (some ⟨next, current⟩, next)
  set { s with status := 0, option := (1, none) }
  match cursor with
  | none => do
    let flow ← leaveOptions name 0x3F next none
    setStatus 1
    return flow
  | some ⟨next, rest⟩ =>
    let c := rest.headD 0
    let rest := rest.drop 1
    let word := (args[next - 2]?).getD []
    let offset := some (word.length - rest.length)
    match optionAt known c with
    | none => do
      if quiet then assign "OPTARG" [c]
      else do
        writeText 2 ("Illegal option -" ++ textOf [c] ++ "\n")
        unassign "OPTARG"
      leaveOptions name 0x3F next offset
    | some false => do
      assign "OPTARG" []
      leaveOptions name c next offset
    | some true =>
      if !rest.isEmpty then do
        assign "OPTARG" rest
        leaveOptions name c next none
      else
        match args[next - 1]? with
        | some value => do
          assign "OPTARG" value
          leaveOptions name c (next + 1) none
        | none =>
          if quiet then do
            assign "OPTARG" [c]
            leaveOptions name 0x3A next none
          else do
            writeText 2 ("No arg for -" ++ textOf [c] ++ " option\n")
            unassign "OPTARG"
            leaveOptions name 0x3F next none

/-- Goes through the options among arguments. -/
def getopts : Builtin
  | [known, name] => do nextOption known name (← get).arguments
  | known :: name :: args => nextOption known name args
  | _ => refuse 2 "Usage: getopts optstring var [arg...]"

end BlockFlow.Shell.Builtin
