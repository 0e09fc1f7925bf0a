import BlockFlow.Shell.Builtin.Basic
import BlockFlow.Shell.Fields

/-! # Builtin commands for variables and aliases

`export`, `readonly`, `local` and `unset` change what is known about variables, `read` gives them
the fields of a line, and `alias` gives texts for names of commands. -/

namespace BlockFlow.Shell.Builtin

/-- The name and the value of an assignment among arguments; there may be no value. -/
def assignment (a : Bytes) : String × Option Bytes :=
  let name := a.takeWhile (· ≠ 0x3D)
  (textOf name, if name.length < a.length then some (a.drop (name.length + 1)) else none)

/-- Writes the variables of a kind, as commands that make them so. -/
def listMarked (command : String) (wanted : Variable → Bool) : Sh Unit := do
  (← get).bindings.toList.forM fun (name, v) => do
    if wanted v then
      let value : Bytes := match v.value with
        | some b => 0x3D :: quotedText b
        | none => []
      writeLine (bytesOf (command ++ " " ++ name) ++ value)

/-- Gives variables a mark and perhaps values; without arguments the marked ones are listed. -/
def marking (command : String) (wanted : Variable → Bool) (mark : Variable → Variable) :
    Builtin := fun args => do
  let (given, operands) ← plainSwitches ['p'] args
  if operands.isEmpty || given.contains 'p' then listMarked command wanted
  else
    operands.forM fun a => do
      let (name, value) := assignment a
      checkName name
      value.forM (assign name)
      markVariable name mark
  finish 0

/-- Lets commands see variables. -/
def export_ : Builtin := marking "export" Variable.exported Variable.seen

/-- Keeps variables from being changed. -/
def readonly : Builtin :=
  marking "readonly" Variable.constant (fun v => { v with constant := true })

/-- Makes variables local to the current function; a hyphen stands for the settings.  What gets a
value may have any name, but it will not be possible to give it back. -/
def local_ : Builtin := fun args => do
  if !(← get).inFunction then refuse 2 "not in a function"
  args.forM fun a => do
    if a = [0x2D] then modify fun s => { s with hidden := .settings s.settings :: s.hidden }
    else
      let (name, value) := assignment a
      if value.isNone && !(← get).bindings.contains name then checkName name
      hide name
      value.forM (assign name)
  finish 0

/-- Takes variables or functions away. -/
def unset : Builtin := fun args => do
  let (given, names) ← plainSwitches ['f', 'v'] args
  names.forM fun n => do
    if given.getLast? = some 'f' then
      modify fun s => { s with functions := s.functions.erase (textOf n) }
    else
      checkName (textOf n)
      unassign (textOf n)
  finish 0

/-! ## Lines -/

/-- A line that has been read: its chunks, last one first, and whether a newline has ended it. -/
structure Line where
  chunks : List Chunk := []
  complete : Bool := false

/-- Reads a line byte by byte, at most so many; after a backslash a byte means itself, unless the
line is read `raw`. -/
def line (raw : Bool) : Nat → Bool → Bytes → List Chunk → Sh Line
  | 0, _, loose, chunks => return { chunks := .loose loose.reverse :: chunks }
  | fuel + 1, escaped, loose, chunks => do
    match ← readSome 0 1 with
    | .ok [b] =>
      if escaped then
        if b = 0x0A then line raw fuel false loose chunks
        else line raw fuel false [] (.solid (marksOf true [b]) :: .loose loose.reverse :: chunks)
      else if b = 0x5C && !raw then line raw fuel true loose chunks
      else if b = 0x0A then return { chunks := .loose loose.reverse :: chunks, complete := true }
      else line raw fuel false (if b = 0 then loose else b :: loose) chunks
    | _ => return { chunks := .loose loose.reverse :: chunks }

/-- The greatest length of a line. -/
def maxLine : Nat := 100000000

/-- Reads a line into variables. -/
def read : Builtin := fun args => do
  let (given, names) ← switches [('p', true), ('r', false)] args
  if names.isEmpty then refuse 2 "arg count"
  let raw := given.any (fun g => g.1 = 'r')
  let line ← line raw maxLine false [] []
  let chunks := line.chunks.reverse.filter fun c =>
    match c with
    | .loose [] => false
    | _ => true
  let found := (fieldsUpTo names.length ⟨← separators⟩ chunks).map plain
  names.zipIdx.forM fun n => assignTo n.1 ((found[n.2]?).getD [])
  finish (if line.complete then 0 else 1)

/-! ## Aliases -/

/-- A number that decides where an alias is listed. -/
def aliasRank (name : String) : Nat := placeIn 39 name

/-- Writes an alias. -/
def writeAlias (a : String × String) : Sh Unit :=
  writeLine (bytesOf (a.1 ++ "=") ++ quotedText (bytesOf a.2))

/-- Gives texts for names of commands, or writes them. -/
def alias_ : Builtin := fun args => do
  if args.isEmpty then
    let all := (← get).aliases.reverse
    (all.mergeSort (fun a b => decide (aliasRank a.1 ≤ aliasRank b.1))).forM writeAlias
  setStatus 0
  let known ← args.mapM fun a => do
    let name := a.take 1 ++ (a.drop 1).takeWhile (· ≠ 0x3D)
    let s ← get
    if name.length < a.length then
      let others := s.aliases.filter (fun b => b.1 ≠ textOf name)
      set { s with aliases := (textOf name, textOf (a.drop (name.length + 1))) :: others }
      return []
    else
      match s.aliases.find? (fun b => b.1 = textOf a) with
      | some b => return [b]
      | none => do
        writeText 2 ("alias: " ++ textOf a ++ " not found\n")
        setStatus 1
        return []
  known.flatten.forM writeAlias
  return .next

/-- Takes aliases away. -/
def unalias : Builtin := fun args => do
  let (given, names) ← plainSwitches ['a'] args
  setStatus 0
  if given.contains 'a' then modify fun s => { s with aliases := [] }
  else
    names.forM fun n => do
      let s ← get
      if s.aliases.any (fun b => b.1 = textOf n) then
        set { s with aliases := s.aliases.filter (fun b => b.1 ≠ textOf n) }
      else
        writeText 2 ("unalias: " ++ textOf n ++ " not found\n")
        setStatus 1
  return .next

end BlockFlow.Shell.Builtin
