import BlockFlow.Json.Basic
import BlockFlow.Decimal.Shortest

/-! # Compact JSON text

Texts are built as lists of characters.  A string is written with the short escapes where they
exist, the other control characters as `\u00xx`, and everything else as it is. -/

namespace BlockFlow.Json

/-- A hexadecimal digit in lower case. -/
def hexDigit (n : Nat) : Char :=
  if n < 10 then Char.ofNat ('0'.toNat + n) else Char.ofNat ('a'.toNat + (n - 10))

/-- How one character of a string is written. -/
def escape (c : Char) : List Char :=
  if c = '"' then ['\\', '"']
  else if c = '\\' then ['\\', '\\']
  else if c = '\x08' then ['\\', 'b']
  else if c = '\t' then ['\\', 't']
  else if c = '\n' then ['\\', 'n']
  else if c = '\x0c' then ['\\', 'f']
  else if c = '\r' then ['\\', 'r']
  else if c.toNat < 0x20 then
    ['\\', 'u', '0', '0', hexDigit (c.toNat / 16), hexDigit (c.toNat % 16)]
  else [c]

/-- A string between quotes. -/
def quoteChars (s : String) : List Char := '"' :: (s.toList.flatMap escape ++ ['"'])

/-- The elements with a separator between them. -/
def separated (sep : List Char) : List (List Char) → List Char
  | [] => []
  | [x] => x
  | x :: y :: ys => x ++ sep ++ separated sep (y :: ys)

/-- Numbers have the fewest digits that read back; they are written positionally from `10^-5` up to
`10^16`, and with a signed exponent beyond. -/
def floatLayout : Decimal.Layout := ⟨-5, 15, "e+", "e-"⟩

/-- The text of a floating point number. -/
def floatText (x : Float) : String :=
  let bits := x.toBits.toNat
  let sign := if bits ≥ Decimal.pow2 63 then "-" else ""
  let magnitude := bits % Decimal.pow2 63
  if magnitude = 0 then sign ++ "0.0"
  else sign ++ floatLayout.write (Decimal.shortest magnitude)

/-- The text of a number. -/
def Number.text : Number → String
  | .int n => toString n
  | .float x => floatText x

/-- An object whose members are written already. -/
def objectChars (members : List (String × List Char)) : List Char :=
  '{' :: (separated [','] (members.map (fun m => quoteChars m.1 ++ ':' :: m.2)) ++ ['}'])

/-- An object on several lines, whose members are written already: each one has a line of its own,
two blanks in. -/
def objectLines (members : List (String × List Char)) : List Char :=
  if members.isEmpty then ['{', '}']
  else
    let line (m : String × List Char) : List Char :=
      '\n' :: ' ' :: ' ' :: (quoteChars m.1 ++ ':' :: ' ' :: m.2)
    '{' :: (separated [','] (members.map line) ++ ['\n', '}'])

/-- A list whose items are written already. -/
def arrayChars (items : List (List Char)) : List Char :=
  '[' :: (separated [','] items ++ [']'])

mutual

/-- The compact text of a value. -/
def chars : Json → List Char
  | .null => ['n', 'u', 'l', 'l']
  | .bool true => ['t', 'r', 'u', 'e']
  | .bool false => ['f', 'a', 'l', 's', 'e']
  | .num n => n.text.toList
  | .str s => quoteChars s
  | .arr items => arrayChars (itemChars items)
  | .obj members => objectChars (memberChars members)

/-- The texts of items. -/
def itemChars : List Json → List (List Char)
  | [] => []
  | v :: vs => chars v :: itemChars vs

/-- The names of members with the texts of their values. -/
def memberChars : List (String × Json) → List (String × List Char)
  | [] => []
  | (k, v) :: ms => (k, chars v) :: memberChars ms

end

/-- The compact text of a value. -/
def compact (v : Json) : String := String.ofList v.chars

end BlockFlow.Json
