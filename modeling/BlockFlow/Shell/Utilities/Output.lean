import BlockFlow.Shell.Condition
import BlockFlow.Shell.Utilities.Basic

/-! # Utilities that write

`cat`, `echo`, `head`, `printf`, `pwd`, `test` and `yes` write or test what their arguments and
inputs say; `sleep` waits. -/

namespace BlockFlow.Shell.Utilities

/-! ## Whole files -/

/-- How `cat` shows what it copies. -/
structure Show where
  /-- Whether lines are numbered. -/
  number : Bool := false
  /-- Whether empty lines have no number. -/
  onlyFilled : Bool := false
  /-- Whether the ends of lines are marked. -/
  ends : Bool := false
  /-- Whether empty lines after an empty one are left out. -/
  squeeze : Bool := false
  tabs : Bool := false
  /-- Whether other bytes that cannot be printed are shown. -/
  control : Bool := false
  deriving DecidableEq

/-- Where `cat` is in what it writes. -/
structure Progress where
  /-- The number of the last line that has one. -/
  line : Nat := 0
  /-- The number of newlines since the last other byte; `none` inside a line. -/
  newlines : Option Nat := some 0

/-- A byte as `cat` shows it. -/
def Show.byte (s : Show) (b : UInt8) : Bytes :=
  let control (b : UInt8) : Bytes :=
    if b < 0x20 then [0x5E, b + 0x40] else if b = 0x7F then [0x5E, 0x3F] else [b]
  if b = 0x09 then if s.tabs then [0x5E, 0x49] else [b]
  else if !s.control then [b]
  else if b < 0x80 then control b
  else [0x4D, 0x2D] ++ control (b - 0x80)

/-- The number in front of a line. -/
def lineNumber (n : Nat) : Bytes :=
  let digits := bytesOf (toString n)
  List.replicate (6 - digits.length) 0x20 ++ digits ++ [0x09]

/-- Adds a byte to what `cat` writes, the last byte first; `next` comes after it. -/
def Show.step (s : Show) (p : Progress) (b : UInt8) (next : Option UInt8) (out : Bytes) :
    Progress × Bytes :=
  if b = 0x0A then
    match p.newlines with
    | none => ({ p with newlines := some 0 }, 0x0A :: (if s.ends then 0x24 :: out else out))
    | some n =>
      if s.squeeze && 1 ≤ n then (p, out)
      else
        let numbered := s.number && !s.onlyFilled
        let p := { line := if numbered then p.line + 1 else p.line, newlines := some (n + 1) }
        let out := if numbered then (lineNumber p.line).reverse ++ out else out
        (p, 0x0A :: (if s.ends then 0x24 :: out else out))
  else
    let numbered := s.number && p.newlines.isSome
    let p := { line := if numbered then p.line + 1 else p.line, newlines := none }
    let out := if numbered then (lineNumber p.line).reverse ++ out else out
    let bytes := if b = 0x0D && s.ends && next = some 0x0A then [0x5E, 0x4D] else s.byte b
    (p, bytes.reverse ++ out)

/-- What `cat` writes for bytes. -/
def Show.bytes (s : Show) : Progress → Bytes → Bytes → Progress × Bytes
  | p, [], out => (p, out.reverse)
  | p, b :: bs, out =>
    let (p, out) := s.step p b bs.head? out
    s.bytes p bs out

/-- How long it takes to copy a block, in microseconds. -/
def blockTime : Nat := 500

/-- Lets time go by for a block, so that others are not kept waiting by those who never stop. -/
def spendBlockTime : Sh Unit := waitUntil (some blockTime) (fun _ => false)

/-- Copies what can be read, in so many blocks at most.  The status says whether all could be
read. -/
def copyBlocks (s : Show) (name : Bytes) (c : Channel) : Nat → Progress → Sh (Nat × Progress)
  | 0, p => return (0, p)
  | blocks + 1, p => do
    match ← readChannel blockSize c with
    | .error e => do
      report (shown name ++ ": " ++ e.reason)
      return (1, p)
    | .ok [] => return (0, p)
    | .ok bytes => do
      let (p, out) := if s = {} then (p, bytes) else s.bytes p bytes []
      emit out
      if bytes.length = blockSize then spendBlockTime
      copyBlocks s name c blocks p

/-- Whether what can still be read from a channel would be written to what is read. -/
def feedsItself (sys : System) (input output : Option Channel) : Bool :=
  match input, output with
  | some (.file i), some (.file o) =>
    match sys.opened.get? i, sys.opened.get? o with
    | some f, some g =>
      sys.files.isSame f.at_ g.at_ && f.kept.isNone && g.kept.isNone &&
        f.position < (sys.content f).size
    | _, _ => false
  | _, _ => false

/-- Copies files one after the other. -/
def copyFiles (s : Show) : Progress → List Bytes → Sh Nat
  | _, [] => return 0
  | p, f :: fs => do
    match ← openInput f with
    | .error e => do
      report (shown f ++ ": " ++ e.reason)
      return max 1 (← copyFiles s p fs)
    | .ok c => do
      if feedsItself (← Sh.system) (some c) ((← get).channels.get? 1) then
        report (shown f ++ ": input file is output file")
        return max 1 (← copyFiles s p fs)
      else
        let (n, p) ← copyBlocks s f c maxBlocks p
        return max n (← copyFiles s p fs)

/-- Writes files, or what can be read, one after the other. -/
def cat : Utility :=
  let known : List Switch := [
    .named "number-nonblank" "b", .named "number" "n", .named "squeeze-blank" "s",
    .named "show-nonprinting" "v", .named "show-ends" "E", .named "show-tabs" "T",
    .named "show-all" "A", .lettered 'e', .lettered 't', .lettered 'u']
  withSwitches known fun a => do
    let all := a.has "show-all"
    let s : Show := {
      number := a.has "number" || a.has "number-nonblank"
      onlyFilled := a.has "number-nonblank"
      ends := a.has "show-ends" || a.has "e" || all
      squeeze := a.has "squeeze-blank"
      tabs := a.has "show-tabs" || a.has "t" || all
      control := a.has "show-nonprinting" || a.has "e" || a.has "t" || all }
    if !(← get).channels.contains 1 then
      report "standard output: Bad file descriptor"
      quit 1
    let files := if a.operands.isEmpty then [[0x2D]] else a.operands
    let status ← copyFiles s {} files
    if files.contains [0x2D] && !(← get).channels.contains 0 then
      report "closing standard input: Bad file descriptor"
      return 1
    else return status

/-! ## Beginnings of files -/

/-- How much of a file is wanted. -/
structure Extent where
  /-- Whether bytes are counted, and not lines. -/
  bytes : Bool := false
  /-- The byte that ends a line. -/
  lineEnd : UInt8 := 0x0A
  count : Nat := 10
  /-- Whether the count is that of what is left out at the end. -/
  fromEnd : Bool := false

/-- The first lines, so many of them. -/
def firstLines (lineEnd : UInt8) : Nat → Bytes → Bytes
  | 0, _ => []
  | _ + 1, [] => []
  | n + 1, bs =>
    let line := bs.takeWhile (· ≠ lineEnd)
    let rest := bs.drop line.length
    line ++ rest.take 1 ++ firstLines lineEnd n (rest.drop 1)

/-- The number of lines, the last one counted although nothing ends it. -/
def lineCount (lineEnd : UInt8) (bs : Bytes) : Nat :=
  bs.count lineEnd + if bs.getLast?.any (· ≠ lineEnd) then 1 else 0

/-- What an extent takes of a whole text. -/
def Extent.part (e : Extent) (bs : Bytes) : Bytes :=
  match e.bytes, e.fromEnd with
  | true, false => bs.take e.count
  | true, true => bs.take (bs.length - e.count)
  | false, false => firstLines e.lineEnd (min e.count bs.length) bs
  | false, true => firstLines e.lineEnd (lineCount e.lineEnd bs - e.count) bs

/-- What is left of an extent after some bytes of it. -/
def Extent.after (e : Extent) (bs : Bytes) : Extent :=
  { e with count := e.count - if e.bytes then bs.length else bs.count e.lineEnd }

/-- How many bytes `head` reads at once. -/
def headBlock : Nat := 8192

/-- Writes the beginning of what can be read, and gives back what was read too much. -/
def headBlocks (name : String) (c : Channel) : Nat → Extent → Sh Nat
  | 0, _ => return 0
  | blocks + 1, e => do
    if e.count = 0 then return 0
    let limit := if e.bytes then min e.count headBlock else headBlock
    match ← readChannel limit c with
    | .error err => do
      report ("error reading " ++ name ++ ": " ++ err.reason)
      return 1
    | .ok [] => return 0
    | .ok bytes => do
      let part := e.part bytes
      emit part
      if part.length < bytes.length then
        giveBack (bytes.length - part.length) c
        return 0
      else headBlocks name c blocks (e.after part)

/-- Writes what an extent takes from what can be read. -/
def headOf (name : String) (e : Extent) (c : Channel) : Sh Nat := do
  if !e.fromEnd then headBlocks name c maxBlocks e
  else
    match ← readAll c maxBlocks with
    | .error err => do
      report ("error reading " ++ name ++ ": " ++ err.reason)
      return 1
    | .ok bytes => do
      let part := e.part bytes
      emit part
      giveBack (bytes.length - part.length) c
      return 0

/-- How `head` writes. -/
structure Heading where
  extent : Extent := {}
  /-- Whether files have titles; if nothing is said, several of them do. -/
  titled : Option Bool := none

/-- The units that a count may have. -/
def countUnits : String := "bkKmMGTPEZY0"

/-- Takes a number as the count. -/
def Heading.counting (h : Heading) (bytes fromEnd : Bool) (number : Bytes) : Sh Heading := do
  let what := if bytes then "bytes" else "lines"
  match amount? countUnits number with
  | .error more => do
    report ("invalid number of " ++ what ++ ": " ++ cited number ++ more)
    quit 1
  | .ok count => return { h with extent := { h.extent with bytes, fromEnd, count } }

/-- Takes what a switch says. -/
def Heading.switched (h : Heading) (g : Given) : Sh Heading := do
  match g.name, g.value with
  | "quiet", _ => return { h with titled := some false }
  | "verbose", _ => return { h with titled := some true }
  | "zero-terminated", _ => return { h with extent := { h.extent with lineEnd := 0 } }
  | name, some value =>
    let fromEnd := value.head? = some 0x2D
    h.counting (name = "bytes") fromEnd (if fromEnd then value.drop 1 else value)
  | name, none =>
    if name.toList.all Char.isDigit then misuse ("invalid trailing option -- " ++ name)
    else return h

/-- Takes what the letters after a number say; the result tells as well whether bytes are counted,
and which unit the number has. -/
def Heading.lettered (h : Heading) (bytes : Bool) (unit : Bytes) :
    Bytes → Sh (Heading × Bool × Bytes)
  | [] => return (h, bytes, unit)
  | b :: bs => do
    match Char.ofNat b.toNat with
    | 'c' => h.lettered true [] bs
    | 'b' | 'k' | 'm' => h.lettered true [b] bs
    | 'l' => h.lettered false unit bs
    | 'q' => Heading.lettered { h with titled := some false } bytes unit bs
    | 'v' => Heading.lettered { h with titled := some true } bytes unit bs
    | 'z' => Heading.lettered { h with extent := { h.extent with lineEnd := 0 } } bytes unit bs
    | _ => misuse ("invalid trailing option -- " ++ textOf [b])

/-- Takes a number right after a hyphen in the first argument; what is left are the other
arguments. -/
def Heading.numbered (h : Heading) : List Bytes → Sh (Heading × List Bytes)
  | (0x2D :: d :: ds) :: rest => do
    let digits := (d :: ds).takeWhile isDecimal
    if digits.isEmpty then return (h, (0x2D :: d :: ds) :: rest)
    else
      let (h, bytes, unit) ← h.lettered false [] ((d :: ds).drop digits.length)
      return (← h.counting bytes false (digits ++ unit), rest)
  | args => return (h, args)

/-- Writes the beginnings of files; the flag says that something has been written before. -/
def heads (titled : Bool) (e : Extent) : Bool → List Bytes → Sh Nat
  | _, [] => return 0
  | begun, f :: fs => do
    let isInput := f = [0x2D]
    let name := if isInput then "standard input" else textOf f
    match ← openInput f with
    | .error err => do
      if isInput then
        report ("error reading 'standard input': " ++ err.reason)
        report ("-: " ++ err.reason)
      else report ("cannot open " ++ inQuotes f ++ " for reading: " ++ err.reason)
      return max 1 (← heads titled e begun fs)
    | .ok c => do
      if titled then
        emit (bytesOf ((if begun then "\n" else "") ++ "==> " ++ name ++ " <==\n"))
      let n ← headOf (inQuotes (bytesOf name)) e c
      return max n (← heads titled e true fs)

/-- Writes the beginnings of files, or of what can be read. -/
def head : Utility := fun args => do
  let digits := "0123456789".toList.map (fun c => Switch.lettered c)
  let known : List Switch := [
    .named "bytes" "c" .always, .named "lines" "n" .always, .named "-presume-input-pipe",
    (Switch.named "quiet" "q").also "silent", .named "verbose" "v",
    .named "zero-terminated" "z"] ++ digits
  let (h, args) ← Heading.numbered {} args
  withChecked 1 known (return) (fun g => discard (h.switched g)) (fun a => do
    let h ← a.given.foldlM Heading.switched h
    let files := if a.operands.isEmpty then [[0x2D]] else a.operands
    heads (h.titled.getD (1 < files.length)) h.extent false files) args

/-! ## Texts -/

/-- Writes a line as long as somebody reads it, in so many blocks at most. -/
def repeatLine (block : Bytes) : Nat → Sh Nat
  | 0 => return 0
  | blocks + 1 => do
    match ← write 1 block with
    | .ok () => do
      spendBlockTime
      repeatLine block blocks
    | .error e => do
      report ("standard output: " ++ e.reason)
      return 1

/-- Writes a line for ever. -/
def yes : Utility :=
  withSwitches [] fun a => do
    let line := if a.operands.isEmpty then bytesOf "y" else (a.operands.intersperse [0x20]).flatten
    let line := line ++ [0x0A]
    repeatLine (List.replicate (headBlock / line.length + 1) line).flatten maxBlocks

/-- Writes arguments on a line; switches say whether escapes are replaced, and whether the line
ends. -/
def echoProgram : Utility
  | args => go true false args
where
  /-- Looks for switches. -/
  go (newline escapes : Bool) : List Bytes → Sh Nat
    | a :: rest =>
      let letters := a.drop 1
      let isSwitch := a.head? = some 0x2D && !letters.isEmpty &&
        letters.all (fun l => l = 0x6E || l = 0x65 || l = 0x45)
      if isSwitch then
        go (newline && !letters.contains 0x6E)
          (letters.foldl (fun e l => if l = 0x65 then true else if l = 0x45 then false else e)
            escapes) rest
      else finish newline escapes (a :: rest)
    | [] => finish newline escapes []
  /-- Writes the line. -/
  finish (newline escapes : Bool) (args : List Bytes) : Sh Nat := do
    let line := (args.intersperse [0x20]).flatten
    let (out, stop) := if escapes then Printf.unescape (line.length + 1) line else (line, false)
    emit (if newline && !stop then out ++ [0x0A] else out)
    return 0

/-- Writes arguments by a format. -/
def printfProgram : Utility := fun args => do
  match if args.head? = some [0x2D, 0x2D] then args.drop 1 else args with
  | [] => misuse "missing operand"
  | fmt :: args => do
    let p := Printf.formatted fmt args
    p.complaints.forM report
    emit p.output
    return p.status

/-- Writes the working directory. -/
def pwdProgram : Utility := fun _ => do
  emit (bytesOf ((← get).directory ++ "\n"))
  return 0

/-! ## Conditions -/

/-- Where conditions look for files. -/
def conditionPlace : Sh Condition.Place := do
  let s ← get
  let sys ← Sh.system
  let at_ (b : Bytes) : Path := Path.join s.directory (textOf b)
  return {
    look := fun follow b => (sys.look s.channels follow (at_ b)).toOption
    mode := fun b =>
      match sys.files.walk true (at_ b) with
      | .ok l => if b.isEmpty || (sys.files.get? l).isNone then none else some (sys.files.mode l)
      | .error _ => none
    same := fun a b =>
      match sys.files.walk true (at_ a), sys.files.walk true (at_ b) with
      | .ok l, .ok m => sys.files.isSame l m && (sys.files.get? l).isSome
      | _, _ => false }

/-- The status of a condition, or what is wrong with it. -/
def condition (args : List Bytes) : Sh (Except Condition.Failure Nat) := do
  let place ← conditionPlace
  return (Condition.evaluate place false args).map (fun b => if b then 0 else 1)

/-- Tests a condition. -/
def testProgram (bracketed : Bool) : Utility := fun args => do
  if bracketed && args.getLast? ≠ some [0x5D] then
    report "missing ']'"
    return 2
  else
    match ← condition (if bracketed then args.dropLast else args) with
    | .ok n => return n
    | .error e => do
      report e.reason
      return 2

/-! ## Time -/

/-- The units of a time, in microseconds. -/
def timeUnits : List (String × Nat) :=
  [("", 1000000), ("s", 1000000), ("m", 60000000), ("h", 3600000000), ("d", 86400000000)]

/-- A time in microseconds. -/
def duration? (b : Bytes) : Option Nat :=
  let (ratio, length) := Printf.ratioAt 10 10 0x65 b
  let unit := (timeUnits.find? (fun u => u.1 = textOf (b.drop length))).map (·.2)
  if length = 0 then none else unit.map (fun u => ratio.numerator * u / ratio.denominator)

/-- Waits for a time. -/
def sleep : Utility :=
  withSwitches [] fun a => do
    if a.operands.isEmpty then misuse "missing operand"
    match a.operands.find? (fun b => (duration? b).isNone) with
    | some b => misuse ("invalid time interval " ++ cited b)
    | none => do
      waitUntil (some ((a.operands.filterMap duration?).foldl (· + ·) 0)) (fun _ => false)
      return 0

end BlockFlow.Shell.Utilities
