import BlockFlow.Shell.Child

/-! # Commands that a shell carries out itself

A builtin command changes the session and says how the script goes on.  What is wrong with its
arguments ends it; whether that ends the shell as well depends on the command. -/

namespace BlockFlow.Shell

/-- A builtin command: from its arguments to how the script goes on. -/
abbrev Builtin := List Bytes → Sh Flow

namespace Builtin

/-- Ends with a status. -/
def finish (status : Nat) : Sh Flow := do
  setStatus status
  return .next

/-- Reads the letters after a hyphen.  The result is none if the last one takes the next argument
as its value. -/
def letters (known : List (Char × Bool)) : List UInt8 → Sh (List (Char × Bytes) × Option Char)
  | [] => return ([], none)
  | b :: rest => do
    let c := Char.ofNat b.toNat
    match known.find? (fun k => k.1 = c), rest with
    | none, _ => refuse 2 ("Illegal option -" ++ String.ofList [c])
    | some (_, true), [] => return ([], some c)
    | some (_, true), rest => return ([(c, rest)], none)
    | some (_, false), rest => do
      let (more, last) ← letters known rest
      return ((c, []) :: more, last)

/-- Splits arguments into switches and operands.  A switch is a letter; those that are known stand
with whether they take a value. -/
def switches (known : List (Char × Bool)) : List Bytes → Sh (List (Char × Bytes) × List Bytes)
  | [] => return ([], [])
  | a :: rest => do
    match a with
    | [0x2D, 0x2D] => return ([], rest)
    | 0x2D :: l :: ls => do
      let (given, last) ← letters known (l :: ls)
      match last, rest with
      | none, rest => do
        let (more, operands) ← switches known rest
        return (given ++ more, operands)
      | some c, value :: rest => do
        let (more, operands) ← switches known rest
        return (given ++ (c, value) :: more, operands)
      | some c, [] => refuse 2 ("No arg for -" ++ String.ofList [c] ++ " option")
    | _ => return ([], a :: rest)

/-- Switches without values. -/
def plainSwitches (known : List Char) (args : List Bytes) : Sh (List Char × List Bytes) := do
  let (given, operands) ← switches (known.map (·, false)) args
  return (given.map (·.1), operands)

/-- A text as it would be written in a script. -/
def inQuotes : Nat → Bytes → Bytes
  | 0, _ => []
  | fuel + 1, b =>
    let plain := b.takeWhile (· ≠ 0x27)
    let quotes := (b.drop plain.length).takeWhile (· = 0x27)
    let rest := b.drop (plain.length + quotes.length)
    let piece := 0x27 :: plain ++ [0x27]
    if quotes.isEmpty then piece
    else
      let piece := piece ++ 0x22 :: quotes ++ [0x22]
      if rest.isEmpty then piece else piece ++ inQuotes fuel rest

/-- A text in quotes. -/
def quotedText (b : Bytes) : Bytes := inQuotes (b.length + 1) b

/-- Writes a line to the standard output. -/
def writeLine (line : Bytes) : Sh Unit := discard (write 1 (line ++ [0x0A]))

/-- Gives the variable that an argument names a value; what follows an equals sign is no part of the
name. -/
def assignTo (name : Bytes) (value : Bytes) : Sh Unit := do
  let name := textOf (name.takeWhile (· ≠ 0x3D))
  checkName name
  assign name value

/-- The place of a name in a table with so many places, by which lists of names are ordered. -/
def placeIn (places : Nat) (name : String) : Nat :=
  let bytes := (bytesOf name).map UInt8.toNat
  (bytes.headD 0 * 16 + bytes.foldl (· + ·) 0) % 32768 % places

/-! ## Control -/

/-- The status that an argument asks for, which is the current one if there is none. -/
def statusOf (args : List Bytes) : Sh Nat := do
  match args with
  | [] => return (← get).status
  | a :: _ => number a

/-- Ends the shell, in a trap with the status before it unless another one is asked for. -/
def exit : Builtin := fun args => do
  let n ← statusOf args
  let s ← get
  let n := if args.isEmpty then s.trapped.getD n else n
  setStatus (n % 256)
  modify fun s => { s with trapped := none }
  return .exit

/-- Ends a function or a sourced script. -/
def return_ : Builtin := fun args => do
  setStatus (← statusOf args)
  return .leave

/-- Ends loops, or goes on with the next turn of one. -/
def ofLoop (flow : Nat → Flow) : Builtin := fun args => do
  let n ← match args with
    | [] => pure 1
    | a :: _ => number a
  if n = 0 then refuse 2 ("Illegal number: " ++ textOf (args.headD []))
  setStatus 0
  match (← get).loops with
  | 0 => return .next
  | loops => return flow (min n loops)

/-- Does nothing. -/
def nothing (status : Nat) : Builtin := fun _ => finish status

end Builtin

end BlockFlow.Shell
