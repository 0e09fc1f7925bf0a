import BlockFlow.Shell.Pattern

/-! # Quoting names

There are several styles of writing a name so that it can be told where it ends and which bytes it
has: as a shell would read it, as a string of a program, or with escapes alone.

* `Style.quote`  writes a name in a style
* `inQuotes`, `quoted`, `shown`, `cited`  are the ways in which messages name things -/

namespace BlockFlow.Shell.Utilities

/-- A style of quoting. -/
inductive Style where
  | literal
  /-- As a shell reads it, in quotes only if there have to be some. -/
  | shell
  | shellAlways
  /-- As a shell reads it, with escapes for what cannot be printed. -/
  | shellEscape
  | shellEscapeAlways
  /-- As a string of a program. -/
  | string
  /-- As a string of a program, in quotes only if there have to be some. -/
  | stringIfNeeded
  | escape
  /-- Between single quotes, with escapes. -/
  | locale
  /-- Between double quotes, with escapes. -/
  | clocale
  deriving DecidableEq, Inhabited, Repr

/-- The names of the styles. -/
def Style.names : List (String × Style) := [
  ("literal", literal), ("shell", shell), ("shell-always", shellAlways),
  ("shell-escape", shellEscape), ("shell-escape-always", shellEscapeAlways), ("c", string),
  ("c-maybe", stringIfNeeded), ("escape", escape), ("locale", locale), ("clocale", clocale)]

/-- The character of a byte. -/
def charOf (b : UInt8) : Char := Char.ofNat b.toNat

/-- Whether a byte can be printed. -/
def isPrintable (b : UInt8) : Bool := 0x20 ≤ b && b ≤ 0x7E

/-- Whether a byte of a name has a meaning for a shell; what counts is its place, and whether it is
the only one. -/
def isSpecial (place length : Nat) (b : UInt8) : Bool :=
  " \t\n\r!\"$&'()*;<=>?[\\^`|".toList.contains (charOf b) ||
    (place = 0 && (b = 0x23 || b = 0x7E)) || (length = 1 && (b = 0x7B || b = 0x7D))

/-- Whether a byte means itself between double quotes. -/
def isPlain (b : UInt8) : Bool :=
  let c := charOf b
  c.isAlphanum || "%+,-./:@]_ '".toList.contains c

/-- A byte that cannot be printed, as an escape. -/
def escaped (b : UInt8) : List Char :=
  match b with
  | 0x07 => ['\\', 'a']
  | 0x08 => ['\\', 'b']
  | 0x09 => ['\\', 't']
  | 0x0A => ['\\', 'n']
  | 0x0B => ['\\', 'v']
  | 0x0C => ['\\', 'f']
  | 0x0D => ['\\', 'r']
  | _ =>
    let n := b.toNat
    '\\' :: [n / 64, n / 8 % 8, n % 8].map (fun d => Char.ofNat (d + 0x30))

/-- The inside of a name between single quotes, with the last one, as a shell reads it; `open_` says
that an escape has just been written. -/
def quotedFrom : Bool → Bytes → List Char
  | _, [] => ['\'']
  | open_, b :: bs =>
    if b = 0x27 then ['\'', '\\', '\'', '\''] ++ quotedFrom false bs
    else if isPrintable b then
      (if open_ then ['\'', '\''] else []) ++ charOf b :: quotedFrom false bs
    else (if open_ then [] else ['\'', '$', '\'']) ++ escaped b ++ quotedFrom true bs

/-- Whether a name with a single quote in it is written as if an escape stood before it, which is
so if it ends with one. -/
def beginsEscaped (name : Bytes) : Bool :=
  name.contains 0x27 && name.getLast?.any (fun b => !isPrintable b)

/-- A name as a shell reads it, with bytes that cannot be printed as they are. -/
def quotedPlainly (name : Bytes) : String :=
  "'" ++ String.join (name.map (fun b => if b = 0x27 then "'\\''" else textOf [b])) ++ "'"

namespace Style

/-- A name with escapes before which `mark` counts as special, as well as those characters. -/
def escapedName (mark : List Char) (name : Bytes) : String :=
  let byte (b : UInt8) : List Char :=
    if !isPrintable b then escaped b
    else if b = 0x5C || mark.contains (charOf b) then ['\\', charOf b]
    else [charOf b]
  String.ofList (name.flatMap byte)

/-- Whether a name has to be quoted; the characters in `also` are reasons too. -/
def isNeeded (s : Style) (also : List Char) (name : Bytes) : Bool :=
  let listed := name.any (fun b => also.contains (charOf b))
  let special := name.isEmpty || name.zipIdx.any (fun b => isSpecial b.2 name.length b.1)
  let unprintable := name.any (fun b => !isPrintable b)
  match s with
  | .shell => special || listed
  | .shellEscape => special || listed || unprintable
  | .stringIfNeeded => listed || unprintable || name.contains 0x22
  | .literal | .escape => false
  | _ => true

/-- A name in a style; the characters in `also` are quoted too. -/
def quote (s : Style) (also : List Char) (name : Bytes) : String :=
  let inDouble := name.contains 0x27 && name.all isPlain
  if s = .escape then escapedName also name
  else if !s.isNeeded also name then textOf name
  else
    match s with
    | .shell | .shellAlways =>
      if inDouble then "\"" ++ textOf name ++ "\"" else quotedPlainly name
    | .shellEscape | .shellEscapeAlways =>
      if inDouble then "\"" ++ textOf name ++ "\""
      else String.ofList ('\'' :: quotedFrom (beginsEscaped name) name)
    | .string | .clocale => "\"" ++ escapedName ('"' :: also) name ++ "\""
    | .stringIfNeeded => "\"" ++ escapedName ['"'] name ++ "\""
    | _ => "'" ++ escapedName ('\'' :: also) name ++ "'"

end Style

/-! ## Names in messages -/

/-- A name as it would be written in a shell, in quotes. -/
def inQuotes (name : Bytes) : String := Style.shellEscapeAlways.quote [] name

/-- A name as it would be written in a shell, in quotes only if there have to be some. -/
def quoted (name : Bytes) : String := Style.shellEscape.quote [] name

/-- A name before a colon, in quotes if there have to be some. -/
def shown (name : Bytes) : String := Style.shellEscape.quote [':'] name

/-- An argument in quotes, with escapes. -/
def cited (argument : Bytes) : String := Style.locale.quote [] argument

end BlockFlow.Shell.Utilities
