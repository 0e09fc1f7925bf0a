import BlockFlow.Shell.Opening
import BlockFlow.Shell.Utilities.Quoting

/-! # What utilities have in common

A utility takes its arguments, reads and writes through the channels of the session, and returns an
exit status.  The session knows the name under which it was called.  Its arguments are switches and
operands, in any order: a switch is a letter after a hyphen or a name after two, and it may take a
value.

* `parse`    sorts arguments into switches and operands
* `choice`   reads the value of a switch that is one of some words
* `amount?`  reads the value of a switch that is a number with a unit -/

namespace BlockFlow.Shell.Utilities

/-- What a program does: from its arguments to its exit status. -/
abbrev Utility := List Bytes → Sh Nat

/-- Ends the program. -/
def quit {α : Type} (status : Nat) : Sh α := do
  setStatus status
  throw .fault

/-- Writes to the standard error stream what goes wrong with the standard output. -/
def emitOr (failed : FileError → Sh Unit) (bytes : Bytes) : Sh Unit := do
  match ← write 1 bytes with
  | .ok () => return
  | .error e => failed e

/-- The name under which the program was called. -/
def programName : Sh String := do return (← get).command.getD ""

/-- Writes to the standard output; the program ends if that fails. -/
def emit (bytes : Bytes) : Sh Unit :=
  emitOr (fun e => do
    writeText 2 ((← programName) ++ ": write error: " ++ e.reason ++ "\n")
    quit 1) bytes

/-- Writes what has been said. -/
def flush : Sh Unit := do
  let bytes := (← get).unwritten
  modify fun s => { s with unwritten := [] }
  if !bytes.isEmpty then emit bytes

/-- Writes what went wrong, after the name of the program and after all that has been said. -/
def report (what : String) : Sh Unit := do
  flush
  writeText 2 ((← programName) ++ ": " ++ what ++ "\n")

/-- Says what has been done, if that is wanted.  It is written when the program ends, if not
earlier. -/
def say (wanted : Bool) (what : String) : Sh Unit := do
  if wanted then modify fun s => { s with unwritten := s.unwritten ++ bytesOf (what ++ "\n") }

/-- Reports a problem; the status is that of a failure. -/
def fail (what : String) : Sh Nat := do
  report what
  return 1

/-- Ends the program after saying where to find help. -/
def seeHelp {α : Type} (status : Nat := 1) : Sh α := do
  writeText 2 ("Try '" ++ (← programName) ++ " --help' for more information.\n")
  quit status

/-- Ends the program with a message about its arguments, and where to find help. -/
def misuse {α : Type} (what : String) : Sh α := do
  report what
  seeHelp

/-! ## Questions -/

/-- How many bytes of an answer are read at once. -/
def answerBlock : Nat := 4096

/-- A line of the standard input, in so many blocks at most. -/
def inputLine : Nat → Sh Bytes
  | 0 => return []
  | blocks + 1 => do
    let bytes := (← get).unread
    let line := bytes.takeWhile (· ≠ 0x0A)
    if line.length < bytes.length then
      modify fun s => { s with unread := bytes.drop (line.length + 1) }
      return line
    else
      match ← readSome 0 answerBlock with
      | .ok (b :: bs) => do
        modify fun s => { s with unread := bytes ++ b :: bs }
        inputLine blocks
      | _ => do
        modify fun s => { s with unread := [] }
        return line

/-- Asks for consent; a line that begins with a Y gives it. -/
def asks (question : String) : Sh Bool := do
  writeText 2 ((← programName) ++ ": " ++ question ++ "? ")
  let answer ← inputLine maxBlocks
  return answer.head? = some 0x79 || answer.head? = some 0x59

/-- Gives back what has been read and not used. -/
def giveBackInput : Sh Unit := do
  let s ← get
  set { s with unread := [] }
  match s.channels.get? 0 with
  | some c => giveBack s.unread.length c
  | none => return

/-! ## Ends -/

/-- Ends a program like others do, after everything has been written; if that is not possible, it
ends with the status `failure`. -/
def closing (failure : Nat) (u : Utility) : Utility := fun args => do
  let r ← Sh.outcome (u args)
  giveBackInput
  match ← Sh.outcome flush with
  | .error .fault => quit failure
  | .error e => throw e
  | .ok () => Sh.ofOutcome r

/-- Runs an action on every operand; the status is the worst one. -/
def onEach (f : Bytes → Sh Nat) : List Bytes → Sh Nat
  | [] => return 0
  | a :: rest => do
    let n ← f a
    let m ← onEach f rest
    return max n m

/-! ## Operands -/

/-- The absolute path of an operand. -/
def absolute (operand : Bytes) : Sh Path := pathOf operand

/-- An operand below another one. -/
def below (directory name : Bytes) : Bytes :=
  if directory.getLast? = some 0x2F then directory ++ name else directory ++ 0x2F :: name

/-! ## Switches -/

/-- Whether a switch takes a value. -/
inductive Takes where
  | nothing
  /-- Only after a long name, in the same argument. -/
  | perhaps
  | always
  deriving DecidableEq, Inhabited, Repr

/-- A switch that a program knows. -/
structure Switch where
  /-- What the program calls it. -/
  name : String
  letters : List Char
  takes : Takes
  /-- The names after two hyphens. -/
  longNames : List String
  deriving Inhabited

namespace Switch

/-- A switch with a long name and letters. -/
def named (name : String) (letters : String := "") (takes : Takes := .nothing) : Switch :=
  ⟨name, letters.toList, takes, [name]⟩

/-- A switch that is only a letter. -/
def lettered (c : Char) (takes : Takes := .nothing) : Switch := ⟨String.singleton c, [c], takes, []⟩

/-- Another long name of a switch. -/
def also (s : Switch) (name : String) : Switch := { s with longNames := s.longNames ++ [name] }

/-- The switches that every program knows. -/
def general : List Switch := [named "help", named "version"]

end Switch

/-- A switch among arguments, by its name, with its value if it has one. -/
structure Given where
  name : String
  value : Option Bytes := none
  deriving Inhabited

/-- Arguments that have been sorted. -/
structure Arguments where
  given : List Given := []
  operands : List Bytes := []
  /-- What is wrong after the switches that are given. -/
  problem : Option String := none
  deriving Inhabited

namespace Arguments

/-- Whether a switch is given. -/
def has (a : Arguments) (name : String) : Bool := a.given.any (fun g => g.name = name)

/-- The value of a switch, the last one if there are several. -/
def value? (a : Arguments) (name : String) : Option Bytes :=
  (a.given.reverse.find? (fun g => g.name = name)).bind Given.value

/-- The last switch that is given, of several ones. -/
def last? (a : Arguments) (names : List String) : Option Given :=
  a.given.reverse.find? (fun g => names.contains g.name)

/-- Puts a switch before others. -/
def add (a : Arguments) (s : Switch) (value : Option Bytes) : Arguments :=
  { a with given := ⟨s.name, value⟩ :: a.given }

end Arguments

/-- The switch that a long name means, which may be shortened; `text` is the name with a value. -/
def switchNamed (known : List Switch) (text : Bytes) : Except String (Switch × String) :=
  let name := textOf (text.takeWhile (· ≠ 0x3D))
  let all := known.flatMap (fun s => s.longNames.map (fun n => (s, n)))
  let fit := all.filter (fun s => name.toList.isPrefixOf s.2.toList)
  match all.find? (fun s => s.2 = name), fit with
  | some s, _ => .ok s
  | none, [] => .error ("unrecognized option '--" ++ textOf text ++ "'")
  | none, first :: others =>
    match others.filter (fun s => s.1.name ≠ first.1.name) with
    | [] => .ok first
    | others =>
      let names := String.join ((first :: others).map (fun s => " '--" ++ s.2 ++ "'"))
      .error ("option '--" ++ textOf text ++ "' is ambiguous; possibilities:" ++ names)

/-- Puts the switches of letters after a hyphen before what the arguments after them come to. -/
def addLetters (known : List Switch) (parse : List Bytes → Arguments) :
    List UInt8 → List Bytes → Arguments
  | [], rest => parse rest
  | b :: bs, rest =>
    let letter := textOf [b]
    match known.find? (fun s => s.letters.contains (Char.ofNat b.toNat)) with
    | none => { problem := some ("invalid option -- '" ++ letter ++ "'") }
    | some s =>
      if s.takes ≠ .always then (addLetters known parse bs rest).add s none
      else
        match bs, rest with
        | _ :: _, rest => (parse rest).add s (some bs)
        | [], value :: rest => (parse rest).add s (some value)
        | [], [] => { problem := some ("option requires an argument -- '" ++ letter ++ "'") }

/-- Puts the switch of a long name before what the arguments after it come to. -/
def addLong (known : List Switch) (parse : List Bytes → Arguments) (text : Bytes)
    (rest : List Bytes) : Arguments :=
  match switchNamed known text with
  | .error what => { problem := some what }
  | .ok (s, name) =>
    let value := (text.dropWhile (· ≠ 0x3D)).drop 1
    let about (what : String) : Arguments :=
      { problem := some ("option '--" ++ name ++ "' " ++ what) }
    match text.contains 0x3D, s.takes, rest with
    | false, .always, v :: rest => (parse rest).add s (some v)
    | false, .always, [] => about "requires an argument"
    | false, _, rest => (parse rest).add s none
    | true, .nothing, _ => about "doesn't allow an argument"
    | true, _, rest => (parse rest).add s (some value)

/-- Sorts so many arguments; if it is done `strictly`, nothing after an operand is a switch. -/
def parse (known : List Switch) (strictly : Bool) : Nat → List Bytes → Arguments
  | 0, args => { operands := args }
  | _ + 1, [] => {}
  | fuel + 1, a :: rest =>
    match a with
    | [0x2D, 0x2D] => { operands := rest }
    | 0x2D :: 0x2D :: long => addLong known (parse known strictly fuel) long rest
    | 0x2D :: letter :: letters =>
      addLetters known (parse known strictly fuel) (letter :: letters) rest
    | operand =>
      if strictly then { operands := operand :: rest }
      else
        let later := parse known strictly fuel rest
        { later with operands := operand :: later.operands }

/-- The value of a variable that the program sees. -/
def seen? (name : String) : Sh (Option Bytes) := do
  let v ← binding name
  return if v.exported then v.value else none

/-- A utility with switches, each of which is checked before the next one is looked at; there may be
a `hint` to what is wrong with them, and then the program ends with the status `failure`. -/
def withChecked (failure : Nat) (known : List Switch) (hint : Sh Unit) (check : Given → Sh Unit)
    (f : Arguments → Sh Nat) : Utility := closing failure fun args => do
  let strictly := (← seen? "POSIXLY_CORRECT").isSome
  let a := parse (known ++ Switch.general) strictly (args.length + 1) args
  a.given.forM fun g => do
    if g.name = "help" || g.name = "version" then quit 0
    check g
  match a.problem with
  | some what => do
    report what
    hint
    seeHelp failure
  | none => f a

/-- A utility with switches. -/
def withSwitches (known : List Switch) (f : Arguments → Sh Nat) : Utility :=
  withChecked 1 known (return) (fun _ => return) f

/-! ## Values of switches -/

/-- The word that a value means, which may be shortened.  Words stand in groups with one meaning,
which is that of the first one. -/
def choice? (groups : List (List String)) (value : Bytes) : Except String String :=
  let text := textOf value
  let fit := groups.filter (fun g => g.any (fun w => text.toList.isPrefixOf w.toList))
  match groups.find? (fun g => g.contains text), fit with
  | some g, _ | none, [g] => .ok (g.headD "")
  | none, [] => .error "invalid"
  | none, _ => .error "ambiguous"

/-- The word that the value of a switch means; the program ends if it is none of those. -/
def choice (groups : List (List String)) (switch : String) (value : Bytes) : Sh String := do
  match choice? groups value with
  | .ok w => return w
  | .error kind => do
    report (kind ++ " argument " ++ cited value ++ " for " ++ cited (bytesOf switch))
    let words (g : List String) : String := ", ".intercalate (g.map (fun w => "'" ++ w ++ "'"))
    let lines := groups.map (fun g => "  - " ++ words g ++ "\n")
    writeText 2 ("Valid arguments are:\n" ++ String.join lines)
    seeHelp

/-- The greatest amount. -/
def greatestAmount : Nat := 18446744073709551615

/-- The letters of units, with the power of the base that they stand for. -/
def powers : List (Char × Nat) :=
  [('E', 6), ('G', 3), ('g', 3), ('k', 1), ('K', 1), ('M', 2), ('m', 2), ('P', 5), ('T', 4),
    ('t', 4), ('Y', 8), ('Z', 7)]

/-- The factor that the text of a unit stands for, and the length of that text. -/
def unitAt (text : Bytes) : Option (Nat × Nat) :=
  let c := Char.ofNat (text.headD 0).toNat
  match powers.find? (fun p => p.1 = c) with
  | some (_, n) =>
    match (text.drop 1).map (fun b => Char.ofNat b.toNat) with
    | 'i' :: 'B' :: _ => some (Nat.pow 1024 n, 3)
    | 'B' :: _ | 'D' :: _ => some (Nat.pow 1000 n, 2)
    | _ => some (Nat.pow 1024 n, 1)
  | none => if c = 'b' then some (512, 1) else none

/-- The amount that a text means, which may end with a unit among those; if there is none, what is
wrong with it, as far as more is to be said. -/
def amount? (units : String) (b : Bytes) : Except String Nat :=
  let text := b.dropWhile isBlank
  let negative := text.head? = some 0x2D
  let text := if text.head? = some 0x2B then text.drop 1 else text
  let digits := text.takeWhile isDecimal
  let hasUnit (t : Bytes) : Bool := t.head?.any (fun c => units.toList.contains (charOf c))
  if negative || (digits.isEmpty && !hasUnit b) then .error ""
  else
    let n := if digits.isEmpty then 1 else decimal digits
    let rest := if digits.isEmpty then b else text.drop digits.length
    let tooGreat : Except String Nat := .error ": Value too large for defined data type"
    match rest, if hasUnit rest then unitAt rest else none with
    | [], _ => if greatestAmount < n then tooGreat else .ok n
    | rest, some (factor, length) =>
      if length ≠ rest.length then .error ""
      else if greatestAmount < n * factor && n ≠ 0 then tooGreat
      else .ok (n * factor)
    | _, none => .error ""

end BlockFlow.Shell.Utilities
