import BlockFlow.Json.Write
import BlockFlow.Text.GraphemeExtend
import BlockFlow.Text.Printable

/-! # Why a JSON text is refused

A `JsonError` is the cause; `JsonError.message` words it and `JsonError.category` says whether the
text ended too early, is no JSON, or is JSON of the wrong shape. -/

namespace BlockFlow

/-- What was found where something else was expected. -/
inductive JsonFound where
  | null
  | boolean (b : Bool)
  | number (n : Json.Number)
  | text (s : String)
  | sequence
  | map
  deriving Inhabited

/-- The cause for which a text is refused. -/
inductive JsonError where
  | endInValue
  | endInList
  | endInObject
  | endInString
  | expectedColon
  | expectedListComma
  | expectedObjectComma
  | expectedIdent
  | expectedValue
  | invalidEscape
  | invalidNumber
  | numberOutOfRange
  | controlCharacter
  | keyNotString
  | loneSurrogate
  | unpairedSurrogate
  | trailingComma
  | trailingCharacters
  | recursionLimit
  | invalidType (found : JsonFound) (expected : String)
  | invalidValue (found : JsonFound) (expected : String)
  | invalidLength (length : Nat) (expected : String)
  | unknownVariant (name : String) (expected : List String)
  | missingField (name : String)
  | duplicateField (name : String)
  | noMatchingVariant (type : String)
  /-- A text inside the text is refused. -/
  | embedded (cause : JsonError)
  deriving Inhabited

/-- The three kinds of causes. -/
inductive JsonError.Category where
  | malformed
  | data
  | endOfInput
  deriving DecidableEq, Inhabited

/-- The name of a category. -/
def JsonError.Category.name : Category → String
  | .malformed => "Syntax"
  | .data => "Data"
  | .endOfInput => "Eof"

namespace JsonError

/-- The category of a cause. -/
def category : JsonError → Category
  | .endInValue | .endInList | .endInObject | .endInString => .endOfInput
  | .invalidType .. | .invalidValue .. | .invalidLength .. | .unknownVariant .. | .missingField _
  | .duplicateField _ | .noMatchingVariant _
  | .embedded _ => .data
  | _ => .malformed

/-- A name between backticks. -/
def ticked (s : String) : String := "`" ++ s ++ "`"

/-- The hexadecimal digits of a number, in lower case. -/
def hexText (n : Nat) : String := String.ofList ((Nat.toDigits 16 n))

/-- How a character is shown inside a quoted text: by its code point, unless it can be printed and
stands on its own. -/
def shown (c : Char) : List Char :=
  if c = '"' then ['\\', '"']
  else if c = '\\' then ['\\', '\\']
  else if c = '\t' then ['\\', 't']
  else if c = '\n' then ['\\', 'n']
  else if c = '\r' then ['\\', 'r']
  else if c = '\x00' then ['\\', '0']
  else if Text.extendsGrapheme c || !Text.isPrintable c then
    ['\\', 'u', '{'] ++ (hexText c.toNat).toList ++ ['}']
  else [c]

/-- A text between quotes, with the characters escaped that cannot be shown. -/
def quotedText (s : String) : String := String.ofList ('"' :: (s.toList.flatMap shown ++ ['"']))

/-- How the thing found is named. -/
def found : JsonFound → String
  | .null => "null"
  | .boolean b => "boolean " ++ ticked (if b then "true" else "false")
  | .number (.int n) => "integer " ++ ticked (toString n)
  | .number (.float x) => "floating point " ++ ticked (Json.floatText x)
  | .text s => "string " ++ quotedText s
  | .sequence => "sequence"
  | .map => "map"

/-- The names that were possible. -/
def alternatives : List String → String
  | [] => "there are no variants"
  | [a] => "expected " ++ ticked a
  | [a, b] => "expected " ++ ticked a ++ " or " ++ ticked b
  | names => "expected one of " ++ ", ".intercalate (names.map ticked)

/-- The wording of a cause. -/
def message : JsonError → String
  | .endInValue => "EOF while parsing a value"
  | .endInList => "EOF while parsing a list"
  | .endInObject => "EOF while parsing an object"
  | .endInString => "EOF while parsing a string"
  | .expectedColon => "expected `:`"
  | .expectedListComma => "expected `,` or `]`"
  | .expectedObjectComma => "expected `,` or `\x7d`"
  | .expectedIdent => "expected ident"
  | .expectedValue => "expected value"
  | .invalidEscape => "invalid escape"
  | .invalidNumber => "invalid number"
  | .numberOutOfRange => "number out of range"
  | .controlCharacter => "control character (\\u0000-\\u001F) found while parsing a string"
  | .keyNotString => "key must be a string"
  | .loneSurrogate => "lone leading surrogate in hex escape"
  | .unpairedSurrogate => "unexpected end of hex escape"
  | .trailingComma => "trailing comma"
  | .trailingCharacters => "trailing characters"
  | .recursionLimit => "recursion limit exceeded"
  | .invalidType f expected => "invalid type: " ++ found f ++ ", expected " ++ expected
  | .invalidValue f expected => "invalid value: " ++ found f ++ ", expected " ++ expected
  | .invalidLength n expected => "invalid length " ++ toString n ++ ", expected " ++ expected
  | .unknownVariant name expected =>
    "unknown variant " ++ ticked name ++ ", " ++ alternatives expected
  | .missingField name => "missing field " ++ ticked name
  | .duplicateField name => "duplicate field " ++ ticked name
  | .noMatchingVariant type => "data did not match any variant of untagged enum " ++ type
  | .embedded cause => cause.message

end JsonError

end BlockFlow
