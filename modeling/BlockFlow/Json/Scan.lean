import BlockFlow.Json.Error

/-! # Scanning JSON text

The scanners take the characters that are left and return what is left after them.  There are two
of each kind: one that decodes, and one (`skip…`) that only finds the end of a well-formed piece.
A skipped text is not judged beyond its form: numbers may be out of range, escaped surrogates need
not pair, and values may nest to any depth.

Loops run on a count computed from the length of the text; each round takes a character, so the
count is never used up. -/

namespace BlockFlow.Json

/-- Blank characters between tokens. -/
def isBlank (c : Char) : Bool := c = ' ' || c = '\t' || c = '\n' || c = '\r'

/-- The text after leading blanks. -/
def skipBlanks (cs : List Char) : List Char := cs.dropWhile isBlank

/-- Whether a character is a decimal digit. -/
def isDigit (c : Char) : Bool := '0' ≤ c && c ≤ '9'

/-- The value of a decimal digit. -/
def digitValue (c : Char) : Nat := c.toNat - '0'.toNat

/-- The rest of a literal name such as `true`. -/
def literal : List Char → List Char → Except JsonError (List Char)
  | [], cs => .ok cs
  | _ :: _, [] => .error .endInValue
  | e :: es, c :: cs => if e = c then literal es cs else .error .expectedIdent

/-! ## Strings -/

/-- The value of a hexadecimal digit. -/
def hexValue? (c : Char) : Option Nat :=
  if isDigit c then some (digitValue c)
  else if 'a' ≤ c && c ≤ 'f' then some (c.toNat - 'a'.toNat + 10)
  else if 'A' ≤ c && c ≤ 'F' then some (c.toNat - 'A'.toNat + 10)
  else none

/-- The value of four hexadecimal digits. -/
def hexValues? (a b c d : Char) : Option Nat := do
  let a ← hexValue? a
  let b ← hexValue? b
  let c ← hexValue? c
  let d ← hexValue? d
  return a * 4096 + b * 256 + c * 16 + d

/-- The four digits after `\u`.  A text with fewer than four bytes left has ended too early. -/
def hexEscape : List Char → Except JsonError (Nat × List Char)
  | a :: b :: c :: d :: rest =>
    match hexValues? a b c d with
    | some n => .ok (n, rest)
    | none => .error .invalidEscape
  | cs =>
    if cs.foldl (fun n c => n + c.utf8Size) 0 < 4 then .error .endInString
    else .error .invalidEscape

/-- The character that a letter after a backslash stands for. -/
def simpleEscape? (c : Char) : Option Char :=
  if c = '"' then some '"'
  else if c = '\\' then some '\\'
  else if c = '/' then some '/'
  else if c = 'b' then some '\x08'
  else if c = 'f' then some '\x0c'
  else if c = 'n' then some '\n'
  else if c = 'r' then some '\r'
  else if c = 't' then some '\t'
  else none

/-- Whether a code unit opens a surrogate pair. -/
def isHighSurrogate (n : Nat) : Bool := 0xD800 ≤ n && n ≤ 0xDBFF

/-- Whether a code unit closes a surrogate pair. -/
def isLowSurrogate (n : Nat) : Bool := 0xDC00 ≤ n && n ≤ 0xDFFF

/-- The second half of a surrogate pair whose first half was `high`. -/
def lowHalf (high : Nat) : List Char → Except JsonError (Char × List Char)
  | [] => .error .endInString
  | ['\\'] => .error .endInString
  | '\\' :: 'u' :: rest => do
    let (low, rest) ← hexEscape rest
    if isLowSurrogate low then
      return (Char.ofNat ((high - 0xD800) * 1024 + (low - 0xDC00) + 0x10000), rest)
    else throw .loneSurrogate
  | _ => .error .unpairedSurrogate

/-- The character that `\u` and what follows it stand for. -/
def unicodeEscape (cs : List Char) : Except JsonError (Char × List Char) := do
  let (n, rest) ← hexEscape cs
  if isLowSurrogate n then throw .loneSurrogate
  else if isHighSurrogate n then lowHalf n rest
  else return (Char.ofNat n, rest)

/-- The characters of a string up to its closing quote, after those in `acc`, which is reversed. -/
def stringChars : Nat → List Char → List Char → Except JsonError (String × List Char)
  | 0, _, _ => .error .endInString
  | _ + 1, _, [] => .error .endInString
  | fuel + 1, acc, c :: cs =>
    if c = '"' then .ok (String.ofList acc.reverse, cs)
    else if c = '\\' then
      match cs with
      | [] => .error .endInString
      | e :: cs =>
        if e = 'u' then
          match unicodeEscape cs with
          | .ok (c, cs) => stringChars fuel (c :: acc) cs
          | .error err => .error err
        else
          match simpleEscape? e with
          | some c => stringChars fuel (c :: acc) cs
          | none => .error .invalidEscape
    else if c.toNat < 0x20 then .error .controlCharacter
    else stringChars fuel (c :: acc) cs

/-- A string, after its opening quote. -/
def string (cs : List Char) : Except JsonError (String × List Char) :=
  stringChars (cs.length + 1) [] cs

/-- The end of a string, after its opening quote. -/
def skipStringChars : Nat → List Char → Except JsonError (List Char)
  | 0, _ => .error .endInString
  | _ + 1, [] => .error .endInString
  | fuel + 1, c :: cs =>
    if c = '"' then .ok cs
    else if c = '\\' then
      match cs with
      | [] => .error .endInString
      | e :: cs =>
        if e = 'u' then
          match hexEscape cs with
          | .ok (_, cs) => skipStringChars fuel cs
          | .error err => .error err
        else if (simpleEscape? e).isSome then skipStringChars fuel cs
        else .error .invalidEscape
    else if c.toNat < 0x20 then .error .controlCharacter
    else skipStringChars fuel cs

/-- The end of a string, after its opening quote. -/
def skipString (cs : List Char) : Except JsonError (List Char) :=
  skipStringChars (cs.length + 1) cs

/-! ## Skipping numbers -/

/-- The end of an exponent, after its `e`. -/
def skipExponent (cs : List Char) : Except JsonError (List Char) :=
  let cs := match cs with
    | '+' :: r => r
    | '-' :: r => r
    | _ => cs
  match cs with
  | c :: r => if isDigit c then .ok (r.dropWhile isDigit) else .error .invalidNumber
  | [] => .error .invalidNumber

/-- The end of what may follow the digits of a number. -/
def skipExponentPart : List Char → Except JsonError (List Char)
  | c :: r => if c = 'e' || c = 'E' then skipExponent r else .ok (c :: r)
  | [] => .ok []

/-- The end of what may follow the integer part of a number. -/
def skipFractionPart : List Char → Except JsonError (List Char)
  | '.' :: d :: r =>
    if isDigit d then skipExponentPart (r.dropWhile isDigit) else .error .invalidNumber
  | ['.'] => .error .invalidNumber
  | cs => skipExponentPart cs

/-- The end of a number, after its sign. -/
def skipUnsigned : List Char → Except JsonError (List Char)
  | [] => .error .invalidNumber
  | c :: r =>
    if c = '0' then
      match r with
      | d :: _ => if isDigit d then .error .invalidNumber else skipFractionPart r
      | [] => .ok []
    else if isDigit c then skipFractionPart (r.dropWhile isDigit)
    else .error .invalidNumber

/-! ## Skipping values -/

/-- A container that is open. -/
inductive Frame where
  | list
  | object
  deriving DecidableEq

/-- The error for a text that ends inside a container. -/
def Frame.unclosed : Frame → JsonError
  | .list => .endInList
  | .object => .endInObject

/-- The error for something else than a comma or the closing bracket. -/
def Frame.expectedComma : Frame → JsonError
  | .list => .expectedListComma
  | .object => .expectedObjectComma

/-- The bracket that closes a container. -/
def Frame.close : Frame → Char
  | .list => ']'
  | .object => '}'

/-- The text after a member's name and colon. -/
def skipKey (cs : List Char) : Except JsonError (List Char) :=
  match skipBlanks cs with
  | [] => .error .endInObject
  | c :: cs =>
    if c = '"' then do
      let cs ← skipString cs
      match skipBlanks cs with
      | [] => throw .endInObject
      | c :: cs => if c = ':' then return cs else throw .expectedColon
    else .error .keyNotString

/-- What a skipping run stands before. -/
inductive SkipState where
  /-- A value. -/
  | value
  /-- The first item of the container on top, or its end. -/
  | opened
  /-- A comma or the end of the container on top. -/
  | filled

/-- The end of a value that is no container, after its first character `c`. -/
def skipScalar (c : Char) (cs : List Char) : Except JsonError (List Char) :=
  if c = 'n' then literal ['u', 'l', 'l'] cs
  else if c = 't' then literal ['r', 'u', 'e'] cs
  else if c = 'f' then literal ['a', 'l', 's', 'e'] cs
  else if c = '-' then skipUnsigned cs
  else if isDigit c then skipUnsigned (c :: cs)
  else if c = '"' then skipString cs
  else .error .expectedValue

/-- Runs to the end of a value inside the open containers `stack`. -/
def skipRun : Nat → SkipState → List Frame → List Char → Except JsonError (List Char)
  | 0, _, _, _ => .error .endInValue
  | fuel + 1, .value, stack, cs =>
    match skipBlanks cs with
    | [] => .error .endInValue
    | c :: cs =>
      if c = '[' then skipRun fuel .opened (.list :: stack) cs
      else if c = '{' then skipRun fuel .opened (.object :: stack) cs
      else
        match skipScalar c cs with
        | .ok cs => skipRun fuel .filled stack cs
        | .error e => .error e
  -- No container is open any more, so the value is over.
  | _ + 1, .filled, [], cs => .ok cs
  -- Not reached, since opening a container puts it on the stack.
  | _ + 1, .opened, [], cs => .ok cs
  | fuel + 1, .opened, frame :: stack, cs =>
    match skipBlanks cs with
    | [] => .error frame.unclosed
    | c :: r =>
      if c = frame.close then skipRun fuel .filled stack r
      else
        match frame with
        | .list => skipRun fuel .value (.list :: stack) (c :: r)
        | .object =>
          match skipKey (c :: r) with
          | .ok cs => skipRun fuel .value (.object :: stack) cs
          | .error e => .error e
  | fuel + 1, .filled, frame :: stack, cs =>
    match skipBlanks cs with
    | [] => .error frame.unclosed
    | c :: r =>
      if c = frame.close then skipRun fuel .filled stack r
      else if c = ',' then
        match frame with
        | .list => skipRun fuel .value (.list :: stack) r
        | .object =>
          match skipKey r with
          | .ok cs => skipRun fuel .value (.object :: stack) cs
          | .error e => .error e
      else .error frame.expectedComma

/-- The text after a value, whatever it holds. -/
def skipValue (cs : List Char) : Except JsonError (List Char) :=
  skipRun (2 * cs.length + 2) .value [] cs

/-- A value as it is written, from its first to its last character. -/
def rawValue (cs : List Char) : Except JsonError (String × List Char) := do
  let start := skipBlanks cs
  let rest ← skipValue start
  return (String.ofList (start.take (start.length - rest.length)), rest)

end BlockFlow.Json
