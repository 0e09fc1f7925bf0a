import BlockFlow.Shell.Arithmetic
import BlockFlow.Shell.Fields
import BlockFlow.Shell.Session

/-! # Expanding words

A word expands to chunks: text and quoted expansions are solid, and the values of other expansions
are loose.  The fields that result are matched against file names if they hold an active sign.
Where a word cannot become several fields, nothing is split and nothing is matched. -/

namespace BlockFlow.Shell.Expansion

/-- How a word is used. -/
structure Use where
  /-- Whether it may become several fields. -/
  splits : Bool
  /-- Whether it is the value of a variable. -/
  isValue : Bool := false
  /-- Whether its plain text is loose, as that in the argument of a parameter is. -/
  looseText : Bool := false

/-- Runs commands and gives what they write. -/
abbrev Runner := Command → Sh Bytes

/-! ## Parameters -/

/-- The letters of the settings that are on, the last setting first. -/
def letters (s : Session) : String :=
  String.ofList ((Setting.all.reverse.filter (fun t => s.has t.name)).filterMap Setting.letter)

/-- The value of a parameter that is not the list of arguments. -/
def scalar? (name : String) : Sh (Option Bytes) := do
  let s ← get
  match name with
  | "#" => return some (bytesOf (toString s.arguments.length))
  | "?" => return some (bytesOf (toString s.status))
  | "$" => return some (bytesOf (toString s.shellId))
  | "!" => return s.lastJob.map (fun n => bytesOf (toString n))
  | "-" => return some (bytesOf (letters s))
  | _ =>
    if name.toList.all Char.isDigit then
      match decimal (bytesOf name) with
      | 0 => return some (bytesOf s.name)
      | n => return s.arguments[n - 1]?
    else lookUp? name

/-- Whether a parameter is the list of arguments. -/
def isList (name : String) : Bool := name = "@" || name = "*"

/-- Whether the fields of a parameter stay apart although it is quoted. -/
def staysApart (name : String) (quoted splits : Bool) : Bool := name = "@" && quoted && splits

/-- The value of a parameter.  Between arguments there is a zero, if they stay apart. -/
def value? (name : String) (quoted splits : Bool) : Sh (Option Bytes) := do
  if !isList name then scalar? name
  else
    let s ← get
    let between : Bytes ←
      if splits && (name = "@" || !quoted) then pure [0]
      else
        match ← lookUp? "IFS" with
        | some ifs => pure (ifs.take 1)
        | none => pure [0x20]
    return some ((s.arguments.intersperse between).flatten)

/-- The bytes between zeros. -/
def apart : Bytes → List Bytes
  | [] => [[]]
  | b :: bs =>
    if b = 0 then [] :: apart bs
    else
      match apart bs with
      | [] => [[b]]
      | c :: cs => (b :: c) :: cs

/-- The chunks of the value of a parameter. -/
def chunks (name : String) (quoted splits : Bool) (b : Bytes) : Sh (List Chunk) := do
  if !quoted then return [.loose b]
  else if staysApart name quoted splits then
    -- Without arguments there is no field, not even an empty one.
    if (← get).arguments.isEmpty then return []
    else return ((apart b).map (fun a => Chunk.solid (marksOf true a))).intersperse .gap
  else return [.solid (marksOf true b)]

/-! ## Home directories -/

/-- The home directory of a user, or of whoever runs the shell. -/
def home? (user : String) : Sh (Option Bytes) := do
  if user = "" then lookUp? "HOME"
  else if user = "root" then return some (bytesOf "/root") else return none

/-! ## Parts -/

/-- Ends the shell because a parameter has no value. -/
def withoutValue {α : Type} (name what : String) : Sh α := refuse 2 (name ++ ": " ++ what)

/-- What a parameter contributes; `argument` expands its argument. -/
def useParameter (name : String) (use : ParameterUse) (quoted : Bool) (u : Use)
    (argument : Use → Sh (List Chunk)) : Sh (List Chunk) := do
  let v ← value? name quoted u.splits
  let given (orEmpty : Bool) : Bool := v.any (fun b => !(orEmpty && b.isEmpty))
  let itself : Sh (List Chunk) := chunks name quoted u.splits (v.getD [])
  let other : Sh (List Chunk) := argument { u with looseText := u.splits && !quoted }
  let checked : Sh Unit := do
    if v.isNone && (← get).has "nounset" then withoutValue name "parameter not set"
  let trimmed (trim : List Pattern.Item → Bytes → Bytes) : Sh (List Chunk) := do
    checked
    let p := Pattern.ofMarks (Chunk.joined (← argument { splits := false }))
    chunks name quoted u.splits (trim p (v.getD []))
  match use with
  | .value => do
    checked
    itself
  | .length => do
    checked
    chunks "" quoted u.splits (bytesOf (toString (v.getD []).length))
  | .default orEmpty => if given orEmpty then itself else other
  | .assign orEmpty => do
    if given orEmpty then itself
    else do
      let b := plain (Chunk.joined (← argument { splits := false }))
      if !isName name then withoutValue name "bad variable name"
      assign name b
      chunks name quoted u.splits b
  | .require orEmpty => do
    if given orEmpty then itself
    else do
      let what := textOf (plain (Chunk.joined (← argument { splits := false })))
      let otherwise := "parameter not set" ++ if orEmpty then " or null" else ""
      withoutValue name (if what = "" then otherwise else what)
  | .alternative orEmpty => if given orEmpty then other else return []
  | .trimFront longest => trimmed (Pattern.trimFront longest)
  | .trimBack longest => trimmed (Pattern.trimBack longest)
  | .invalid => refuse 2 "Bad substitution"

/-- Output of commands without the newlines at its end. -/
def withoutLastLines (b : Bytes) : Bytes := (b.reverse.dropWhile (· = 0x0A)).reverse

/-- The value of an arithmetic expression; it may change variables. -/
def arithmetic (text : String) : Sh Int := do
  let s ← get
  let value (name : String) : String := textOf (((s.bindings.get? name).bind (·.value)).getD [])
  let (r, assigned) := Arithmetic.evaluate value text
  assigned.forM fun a => assign a.1 (bytesOf (toString a.2))
  match r with
  | .ok n => return n
  | .error .quotientTooGreat => throw (.killed Signal.arithmeticFault)
  | .error e => refuse 2 (e.message text)

mutual

/-- The chunks of a part. -/
def partChunks (run : Runner) (u : Use) : Part → Sh (List Chunk)
  | .text s quoted =>
    return [if u.looseText && !quoted then .loose (bytesOf s)
      else .solid (marksOf quoted (bytesOf s))]
  | .home user inValue => do
    let itself := bytesOf ("~" ++ user)
    let home ← if inValue && !u.isValue then pure none else home? user
    return [match home with
      | some h => .solid (marksOf true h)
      | none => .solid (marksOf false itself)]
  | .substitution script quoted => do
    -- Zeros cannot stand in a word.
    chunks "" quoted u.splits (withoutLastLines ((← run script).filter (· ≠ 0)))
  | .arithmetic expression quoted => do
    let text := textOf (plain (Chunk.joined (← wordChunks run { splits := false } expression)))
    chunks "" quoted u.splits (bytesOf (toString (← arithmetic text)))
  | .parameter name use argument quoted =>
    useParameter name use quoted u (fun u => wordChunks run u argument)

/-- The chunks of a word. -/
def wordChunks (run : Runner) (u : Use) : List Part → Sh (List Chunk)
  | [] => return []
  | p :: ps => do
    let chunks ← partChunks run u p
    return chunks ++ (← wordChunks run u ps)

end

/-! ## File names -/

/-- The marks between slashes. -/
def segments : List Mark → List (List Mark)
  | [] => [[]]
  | m :: ms =>
    if m.byte = 0x2F then [] :: segments ms
    else
      match segments ms with
      | [] => [[m]]
      | s :: ss => (m :: s) :: ss

/-- The paths that begin with `found` and go on with names that match the segments. -/
def glob (files : FileTree) (directory : Path) (found : String) : List (List Mark) → List String
  | [] => [found]
  | s :: rest =>
    let text := textOf (plain s)
    let go (name : String) : List String :=
      glob files directory (if rest.isEmpty then found ++ name else found ++ name ++ "/") rest
    if !Pattern.isActive s then go text
    else
      let dir := if found = "" then directory else Path.join directory found
      match files.walk true dir with
      | .error _ => []
      | .ok l =>
        let inside := if files.permits .read l then files.below l else []
        let names := "." :: ".." :: inside.filterMap List.getLast?
        let p := Pattern.ofMarks s
        -- A dot at the front of a name is matched only by a dot that is written.
        let hidden := text.toList.head? = some '.'
        (names.filter (fun n =>
          Pattern.accepts p (bytesOf n) && (hidden || n.toList.head? ≠ some '.'))).flatMap go

/-- The words that a field stands for. -/
def globbed (s : Session) (files : FileTree) (field : List Mark) : List Bytes :=
  if s.has "noglob" || !Pattern.isActive field then [plain field]
  else
    let absolute := (field.head?.map (·.byte)) = some 0x2F
    let found := if absolute then "/" else ""
    let names := segments (if absolute then field.drop 1 else field)
    let paths := glob files s.directory found names
    let isThere (p : Path) : Bool :=
      match files.walk false (Path.join s.directory p) with
      | .ok l => (files.get? l).isSome
      | .error _ => false
    let paths := (paths.filter isThere).map bytesOf
    -- What matches nothing stands for itself.
    if paths.isEmpty then [plain field] else paths.mergeSort (fun a b => !decide (b < a))

/-! ## Words -/

/-- The words that a word expands to. -/
def words (run : Runner) (w : Word) : Sh (List Bytes) := do
  let chunks ← wordChunks run { splits := true } w
  let s ← get
  return (fields ⟨← separators⟩ chunks).flatMap (globbed s (← files))

/-- The marks of a word that is not split. -/
def single (run : Runner) (w : Word) : Sh (List Mark) := do
  return Chunk.joined (← wordChunks run { splits := false } w)

/-- The bytes of a word that is not split. -/
def value (run : Runner) (w : Word) : Sh Bytes := do return plain (← single run w)

/-- The bytes of the value of an assignment. -/
def assigned (run : Runner) (w : Word) : Sh Bytes := do
  return plain (Chunk.joined (← wordChunks run { splits := false, isValue := true } w))

end BlockFlow.Shell.Expansion
