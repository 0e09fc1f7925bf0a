import BlockFlow.Config.Basic
import BlockFlow.Mode

/-! # The arguments of the command line

The first argument is the name of a mode.  After it come options, each with a value:

    --output out    --output=out    -o out    -oout    -o=out

An option may be given once.  `Options.ofArguments` reads the arguments of the program. -/

namespace BlockFlow.CommandLine

/-- An option. -/
inductive Flag where
  | graph
  | output
  | modules
  | interpreter
  | shell
  | concurrency
  deriving DecidableEq, Inhabited, Repr

namespace Flag

/-- All options. -/
def all : List Flag := [.graph, .output, .modules, .interpreter, .shell, .concurrency]

/-- The name of an option. -/
def name : Flag → String
  | .graph => "graph"
  | .output => "output"
  | .modules => "modules"
  | .interpreter => "interpreter"
  | .shell => "shell"
  | .concurrency => "concurrency"

/-- The letter of an option, if it has one. -/
def letter? : Flag → Option Char
  | .graph => some 'g'
  | .output => some 'o'
  | _ => none

/-- Whether the value of an option is a path, which cannot be empty. -/
def isPath : Flag → Bool
  | .graph | .output | .modules => true
  | _ => false

end Flag

/-- What is wrong with arguments. -/
inductive UsageError where
  | missingMode
  | unknownMode (name : String)
  | unexpected (argument : String)
  | missingValue (flag : Flag)
  | invalidValue (flag : Flag) (value : String)
  | repeated (flag : Flag)
  | missingFlag (flag : Flag)
  deriving DecidableEq, Inhabited, Repr

/-- The wording of an error. -/
def UsageError.message : UsageError → String
  | .missingMode => "a mode is required: validate or evaluate"
  | .unknownMode name => "unrecognized mode '" ++ name ++ "'"
  | .unexpected argument => "unexpected argument '" ++ argument ++ "'"
  | .missingValue flag => "a value is required for '--" ++ flag.name ++ "'"
  | .invalidValue flag value => "invalid value '" ++ value ++ "' for '--" ++ flag.name ++ "'"
  | .repeated flag => "the option '--" ++ flag.name ++ "' cannot be used multiple times"
  | .missingFlag flag => "the option '--" ++ flag.name ++ "' is required"

/-! ## Single arguments -/

/-- What one argument is. -/
inductive Argument where
  /-- An option with its value. -/
  | complete (flag : Flag) (value : String)
  /-- An option whose value is the next argument. -/
  | partial_ (flag : Flag)
  /-- The mark after which there are no options. -/
  | separator
  /-- Nothing that is known. -/
  | unknown
  deriving DecidableEq, Inhabited, Repr

namespace Argument

/-- The text after the first equals sign and the text before it. -/
def splitValue (cs : List Char) : List Char × Option (List Char) :=
  let front := cs.takeWhile (· ≠ '=')
  match cs.drop front.length with
  | [] => (front, none)
  | _ :: value => (front, some value)

/-- Reads an argument. -/
def read (argument : String) : Argument :=
  match argument.toList with
  | ['-', '-'] => .separator
  | '-' :: '-' :: long =>
    let (name, value) := splitValue long
    match Flag.all.find? (fun f => f.name.toList = name), value with
    | some f, some value => .complete f (String.ofList value)
    | some f, none => .partial_ f
    | none, _ => .unknown
  | '-' :: letter :: value =>
    match Flag.all.find? (fun f => f.letter? = some letter), value with
    | some f, [] => .partial_ f
    | some f, '=' :: value => .complete f (String.ofList value)
    | some f, value => .complete f (String.ofList value)
    | none, _ => .unknown
  | _ => .unknown

/-- Whether an argument cannot be the value of an option before it. -/
def startsOption (argument : String) : Bool :=
  argument.toList.head? = some '-' && argument ≠ "-"

end Argument

/-- An option with its value. -/
abbrev Setting := Flag × String

/-- Reads options with their values. -/
def settings : List String → Except UsageError (List Setting)
  | [] => .ok []
  | a :: rest =>
    match Argument.read a with
    | .complete f value => (settings rest).map ((f, value) :: ·)
    | .partial_ f =>
      match rest with
      | [] => .error (.missingValue f)
      | value :: rest =>
        if Argument.startsOption value then .error (.missingValue f)
        else (settings rest).map ((f, value) :: ·)
    | .separator =>
      match rest with
      | [] => .ok []
      | extra :: _ => .error (.unexpected extra)
    | .unknown => .error (.unexpected a)

/-! ## All arguments -/

/-- What a call of the program asks for. -/
structure Options where
  mode : Mode
  /-- The file of the graph. -/
  graph : Path
  /-- The output directory; a temporary one if `none`. -/
  output : Option Path
  modules : Path
  interpreter : String
  shell : String
  concurrency : Nat
  deriving DecidableEq

/-- The greatest number that can be given. -/
def maxCount : Nat := 18446744073709551615

/-- Reads a number: digits, perhaps after a plus sign. -/
def count? (s : String) : Option Nat :=
  let digits := match s.toList with
    | '+' :: cs => cs
    | cs => cs
  if digits.isEmpty || !digits.all Char.isDigit then none
  else
    let n := digits.foldl (fun n c => n * 10 + (c.toNat - '0'.toNat)) 0
    if n ≤ maxCount then some n else none

/-- The first option that is given twice. -/
def repeated? : List Setting → Option Flag
  | [] => none
  | (f, _) :: rest => if rest.any (fun s => s.1 = f) then some f else repeated? rest

/-- The value that is given for an option. -/
def given? (ss : List Setting) (f : Flag) : Option String :=
  (ss.find? (fun s => s.1 = f)).map (·.2)

/-- The options of a call. -/
def Options.ofSettings (mode : Mode) (ss : List Setting) : Except UsageError Options := do
  if let some f := repeated? ss then throw (.repeated f)
  if let some (f, value) := ss.find? (fun s => s.1.isPath && s.2 = "") then
    throw (.invalidValue f value)
  let some graph := given? ss .graph | throw (.missingFlag .graph)
  let concurrency ← match given? ss .concurrency with
    | none => pure ({} : Config).maxConcurrency
    | some value =>
      match count? value with
      | some n => pure n
      | none => throw (.invalidValue .concurrency value)
  let byDefault : Config := {}
  return {
    mode
    graph
    output := given? ss .output
    modules := (given? ss .modules).getD byDefault.modules.directory
    interpreter := (given? ss .interpreter).getD byDefault.modules.interpreter
    shell := (given? ss .shell).getD byDefault.shell
    concurrency }

/-- Reads the arguments of the program. -/
def Options.ofArguments : List String → Except UsageError Options
  | [] => .error .missingMode
  | name :: rest =>
    match [Mode.validate, Mode.evaluate].find? (fun m => m.name = name) with
    | none => .error (.unknownMode name)
    | some mode => settings rest >>= Options.ofSettings mode

end BlockFlow.CommandLine
