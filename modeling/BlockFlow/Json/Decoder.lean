import BlockFlow.Json.Numeral

/-! # Decoders: from JSON text to values of a type

A `Decoder α` reads one value at the front of a text.  Its first argument says how many containers
may still be opened: a text may nest `Decoder.maxDepth` containers, and the next one is refused.
The first fault from the left decides the error, whether it is one of form or of type. -/

namespace BlockFlow

/-- Reads a value, given how many containers may still be opened. -/
abbrev Decoder (α : Type) := Nat → List Char → Except JsonError (α × List Char)

namespace Decoder

open Json

/-- How deep containers may nest. -/
def maxDepth : Nat := 127

/-! ## Tokens inside containers -/

/-- The text of the next item of a list, or `none` before the closing bracket. -/
def nextItem (first : Bool) (cs : List Char) : Except JsonError (Option (List Char)) :=
  match skipBlanks cs with
  | [] => .error .endInList
  | c :: r =>
    if c = ']' then .ok none
    else if first then .ok (some (c :: r))
    else if c = ',' then
      match skipBlanks r with
      | [] => .error .endInValue
      | c :: r => if c = ']' then .error .trailingComma else .ok (some (c :: r))
    else .error .expectedListComma

/-- The end of a list. -/
def closeList (cs : List Char) : Except JsonError (List Char) :=
  match skipBlanks cs with
  | [] => .error .endInList
  | c :: r =>
    if c = ']' then .ok r
    else if c = ',' then
      match skipBlanks r with
      | c :: _ => if c = ']' then .error .trailingComma else .error .trailingCharacters
      | [] => .error .trailingCharacters
    else .error .trailingCharacters

/-- The text after the quote that opens the next name of an object, or `none` before the closing
brace. -/
def nextName (first : Bool) (cs : List Char) : Except JsonError (Option (List Char)) :=
  match skipBlanks cs with
  | [] => .error .endInObject
  | c :: r =>
    if c = '}' then .ok none
    else if first then
      if c = '"' then .ok (some r) else .error .keyNotString
    else if c = ',' then
      match skipBlanks r with
      | [] => .error .endInValue
      | c :: r =>
        if c = '"' then .ok (some r)
        else if c = '}' then .error .trailingComma
        else .error .keyNotString
    else .error .expectedObjectComma

/-- The end of an object. -/
def closeObject (cs : List Char) : Except JsonError (List Char) :=
  match skipBlanks cs with
  | [] => .error .endInObject
  | c :: r =>
    if c = '}' then .ok r
    else if c = ',' then .error .trailingComma
    else .error .trailingCharacters

/-- The text after the colon of a member. -/
def colon (cs : List Char) : Except JsonError (List Char) :=
  match skipBlanks cs with
  | [] => .error .endInObject
  | c :: r => if c = ':' then .ok r else .error .expectedColon

/-- The error for the value at the front of `cs` where `expected` was due. -/
def wrongType (expected : String) (cs : List Char) : JsonError :=
  -- A value that is broken itself is refused for that.
  let judged {α : Type} (r : Except JsonError α) (found : α → JsonFound) : JsonError :=
    match r with
    | .ok a => .invalidType (found a) expected
    | .error e => e
  match cs with
  | [] => .expectedValue
  | c :: r =>
    if c = 'n' then judged (literal ['u', 'l', 'l'] r) (fun _ => .null)
    else if c = 't' then judged (literal ['r', 'u', 'e'] r) (fun _ => .boolean true)
    else if c = 'f' then judged (literal ['a', 'l', 's', 'e'] r) (fun _ => .boolean false)
    else if c = '-' || isDigit c then judged (number (c :: r)) (fun n => .number n.1)
    else if c = '"' then judged (Json.string r) (fun s => .text s.1)
    else if c = '[' then .invalidType .sequence expected
    else if c = '{' then .invalidType .map expected
    else .expectedValue

/-! ## Scalars -/

/-- A string; `expected` names what it is to be. -/
def text (expected : String) : Decoder String := fun _ cs =>
  match skipBlanks cs with
  | [] => .error .endInValue
  | c :: r => if c = '"' then Json.string r else .error (wrongType expected (c :: r))

/-- A string. -/
def string : Decoder String := text "a string"

/-- An unsigned integer of 64 bits. -/
def count : Decoder Nat := fun _ cs =>
  match skipBlanks cs with
  | [] => .error .endInValue
  | c :: r =>
    if c = '-' || isDigit c then do
      match ← number (c :: r) with
      | (.int n, rest) =>
        if 0 ≤ n then return (n.toNat, rest) else throw (.invalidValue (.number (.int n)) "usize")
      | (.float x, _) => throw (.invalidType (.number (.float x)) "usize")
    else .error (wrongType "usize" (c :: r))

/-- A value as it is written. -/
def raw : Decoder String := fun _ cs => rawValue cs

/-! ## Containers -/

/-- The items of a list up to its end, after those in `acc`, which is reversed. -/
def items {α : Type} (item : List Char → Except JsonError (α × List Char)) :
    Nat → List α → List Char → Except JsonError ((List α) × List Char)
  | 0, _, _ => .error .endInList
  | fuel + 1, acc, cs =>
    match nextItem acc.isEmpty cs with
    | .error e => .error e
    | .ok none =>
      match closeList cs with
      | .ok rest => .ok (acc.reverse, rest)
      | .error e => .error e
    | .ok (some cs) =>
      match item cs with
      | .error e => .error e
      | .ok (v, rest) => items item fuel (v :: acc) rest

/-- The members of an object up to its end, after those in `acc`, which is reversed. -/
def members {α : Type} (value : List Char → Except JsonError (α × List Char)) :
    Nat → List (String × α) → List Char → Except JsonError ((List (String × α)) × List Char)
  | 0, _, _ => .error .endInObject
  | fuel + 1, acc, cs =>
    match nextName acc.isEmpty cs with
    | .error e => .error e
    | .ok none =>
      match closeObject cs with
      | .ok rest => .ok (acc.reverse, rest)
      | .error e => .error e
    | .ok (some cs) =>
      match (do
        let (name, rest) ← Json.string cs
        let rest ← colon rest
        let (v, rest) ← value rest
        return ((name, v), rest) : Except JsonError ((String × α) × List Char)) with
      | .error e => .error e
      | .ok (m, rest) => members value fuel (m :: acc) rest

/-- A list. -/
def list {α : Type} (item : Decoder α) : Decoder (List α) := fun depth cs =>
  match skipBlanks cs with
  | [] => .error .endInValue
  | c :: r =>
    if c = '[' then
      match depth with
      | 0 => .error .recursionLimit
      | depth + 1 => items (item depth) (r.length + 1) [] r
    else .error (wrongType "a sequence" (c :: r))

/-- The members of an object, in the order of the text. -/
def object {α : Type} (value : Decoder α) : Decoder (List (String × α)) := fun depth cs =>
  match skipBlanks cs with
  | [] => .error .endInValue
  | c :: r =>
    if c = '{' then
      match depth with
      | 0 => .error .recursionLimit
      | depth + 1 => members (value depth) (r.length + 1) [] r
    else .error (wrongType "a map" (c :: r))

/-! ## Values of any type

An object whose first name is `Decoder.embeddedName` has one member, a string, and stands for the
value of the JSON text in that string. -/

/-- The name of the member that holds an embedded text. -/
def embeddedName : String := "$serde_json::private::RawValue"

/-- The text after the first name of an object, if that name announces an embedded text. -/
def embedded? (cs : List Char) : Option (List Char) :=
  match nextName true cs with
  | .ok (some cs) =>
    match Json.string cs with
    | .ok (name, rest) => if name = embeddedName then some rest else none
    | .error _ => none
  | _ => none

/-- Any value; `embedded` gives the value of an embedded text, and without it an object is taken as
it is written. -/
def valueWith (embedded : Option (String → Except JsonError Json)) (depth : Nat) (cs : List Char) :
    Except JsonError (Json × List Char) :=
  match skipBlanks cs with
  | [] => .error .endInValue
  | c :: r =>
    if c = 'n' then return (.null, ← literal ['u', 'l', 'l'] r)
    else if c = 't' then return (.bool true, ← literal ['r', 'u', 'e'] r)
    else if c = 'f' then return (.bool false, ← literal ['a', 'l', 's', 'e'] r)
    else if c = '-' || isDigit c then do
      let (n, rest) ← number (c :: r)
      return (.num n, rest)
    else if c = '"' then do
      let (s, rest) ← Json.string r
      return (.str s, rest)
    else if c = '[' then
      match depth with
      | 0 => .error .recursionLimit
      | depth + 1 => do
        let (vs, rest) ← items (valueWith embedded depth) (r.length + 1) [] r
        return (.arr vs, rest)
    else if c = '{' then
      match depth with
      | 0 => .error .recursionLimit
      | depth + 1 =>
        match embedded, embedded? r with
        | some value, some rest => do
          let (s, rest) ← text "raw value" depth (← colon rest)
          let v ← value s
          return (v, ← closeObject rest)
        | _, _ => do
          let (ms, rest) ← members (valueWith embedded depth) (r.length + 1) [] r
          return (.obj ms, rest)
    else .error .expectedValue

/-- Any value, as it is written. -/
def verbatim : Decoder Json := valueWith none

/-- Reads a text that holds one value and nothing after it but blanks. -/
def run {α : Type} (decoder : Decoder α) (s : String) : Except JsonError α := do
  let (a, rest) ← decoder maxDepth s.toList
  match skipBlanks rest with
  | [] => return a
  | _ => throw .trailingCharacters

/-- The value of an embedded text, in which texts may be embedded `levels - 1` deep. -/
def embeddedValue (levels : Nat) (s : String) : Except JsonError Json :=
  match levels with
  | 0 => .error .endInValue
  | levels + 1 =>
    match run (valueWith (some (embeddedValue levels))) s with
    | .ok v => .ok v
    | .error e => .error (.embedded e)

/-- Any value, with the value of an embedded text in its place.  A text is shorter than the one that
it is embedded in, so that its length bounds how deep texts are embedded. -/
def value : Decoder Json := valueWith (some fun s => embeddedValue (s.length + 1) s)

/-- A decoded value judged afterwards. -/
def refine {α β : Type} (decoder : Decoder α) (judge : α → Except JsonError β) : Decoder β :=
  fun depth cs => do
    let (a, rest) ← decoder depth cs
    return (← judge a, rest)

/-! ## Records -/

/-- A field of a record that is being read into a partial record of type `σ`. -/
structure Field (σ : Type) where
  name : String
  /-- Whether a list that ends before this field is too short. -/
  required : Bool
  /-- Whether the field was read before. -/
  isSet : σ → Bool
  read : σ → Decoder σ

/-- A record: an object of fields, of which unknown ones are skipped, or the list of its fields in
order. -/
structure Record (σ α : Type) where
  title : String
  fields : List (Field σ)
  start : σ
  finish : σ → Except JsonError α

variable {σ α : Type}

/-- What a record of this many fields is, for a list of another length. -/
def Record.lengthText (r : Record σ α) : String :=
  r.title ++ " with " ++ toString r.fields.length ++
    (if r.fields.length = 1 then " element" else " elements")

/-- The member whose name has just been read. -/
def Record.member (r : Record σ α) (depth : Nat) (name : String) (s : σ) (cs : List Char) :
    Except JsonError (σ × List Char) :=
  match r.fields.find? (fun f => f.name = name) with
  | some f =>
    -- A repeated name is refused before its value is looked at.
    if f.isSet s then .error (.duplicateField name)
    else do
      let rest ← colon cs
      f.read s depth rest
  | none => do
    let rest ← colon cs
    return (s, ← skipValue rest)

/-- The members of a record up to the closing brace. -/
def Record.members (r : Record σ α) (depth : Nat) :
    Nat → Bool → σ → List Char → Except JsonError (σ × List Char)
  | 0, _, _, _ => .error .endInObject
  | fuel + 1, first, s, cs =>
    match nextName first cs with
    | .error e => .error e
    | .ok none =>
      match closeObject cs with
      | .ok rest => .ok (s, rest)
      | .error e => .error e
    | .ok (some cs) =>
      match (do
        let (name, rest) ← Json.string cs
        r.member depth name s rest : Except JsonError (σ × List Char)) with
      | .error e => .error e
      | .ok (s, rest) => Record.members r depth fuel false s rest

/-- The fields of a record written as a list, of which `index` are read. -/
def Record.inOrder (r : Record σ α) (depth : Nat) :
    List (Field σ) → Nat → σ → List Char → Except JsonError (σ × List Char)
  | [], _, s, cs => .ok (s, cs)
  | f :: fs, index, s, cs =>
    match nextItem (index == 0) cs with
    | .error e => .error e
    | .ok none =>
      if f.required then .error (.invalidLength index r.lengthText)
      else Record.inOrder r depth fs index s cs
    | .ok (some cs) =>
      match f.read s depth cs with
      | .error e => .error e
      | .ok (s, rest) => Record.inOrder r depth fs (index + 1) s rest

/-- Reads a record. -/
def Record.decoder (r : Record σ α) : Decoder α := fun depth cs =>
  match skipBlanks cs with
  | [] => .error .endInValue
  | c :: rest =>
    if c = '{' then
      match depth with
      | 0 => .error .recursionLimit
      | depth + 1 => do
        let (s, rest) ← r.members depth (rest.length + 1) true r.start rest
        return (← r.finish s, rest)
    else if c = '[' then
      match depth with
      | 0 => .error .recursionLimit
      | depth + 1 => do
        let (s, rest) ← r.inOrder depth r.fields 0 r.start rest
        let a ← r.finish s
        return (a, ← closeList rest)
    else .error (wrongType r.title (c :: rest))

/-! ## Enumerations -/

/-- The value of a name, among those that are possible. -/
def variantOf (variants : List (String × α)) (name : String) : Except JsonError α :=
  match variants.find? (fun v => v.1 = name) with
  | some v => .ok v.2
  | none => .error (.unknownVariant name (variants.map (·.1)))

/-- `null`, and nothing else. -/
def unit : Decoder Unit := fun _ cs =>
  match skipBlanks cs with
  | [] => .error .endInValue
  | c :: r =>
    if c = 'n' then return ((), ← literal ['u', 'l', 'l'] r)
    else .error (wrongType "unit" (c :: r))

/-- The name at the front of an object that stands for one of a list of names. -/
def variantName (cs : List Char) : Except JsonError (String × List Char) :=
  match skipBlanks cs with
  | [] => .error .endInObject
  | '"' :: rest => Json.string rest
  | '}' :: _ => .error .expectedValue
  | _ => .error .keyNotString

/-- One of a list of names, as a string or as an object with that name for `null`. -/
def variant (variants : List (String × α)) : Decoder α := fun depth cs =>
  match skipBlanks cs with
  | [] => .error .endInValue
  | c :: r =>
    if c = '"' then do
      let (name, rest) ← Json.string r
      return (← variantOf variants name, rest)
    else if c = '{' then
      match depth with
      | 0 => .error .recursionLimit
      | depth + 1 => do
        let (name, rest) ← variantName r
        let a ← variantOf variants name
        let rest ← colon rest
        let ((), rest) ← unit depth rest
        match skipBlanks rest with
        | [] => throw .endInObject
        | c :: rest => if c = '}' then return (a, rest) else throw .expectedValue
    else .error .expectedValue

/-- What a decoded value is, for an error. -/
def foundIn : Json → JsonFound
  | .null => .null
  | .bool b => .boolean b
  | .num n => .number n
  | .str s => .text s
  | .arr _ => .sequence
  | .obj _ => .map

/-- One of a list of names, in a value that is decoded already. -/
def variantOfJson (variants : List (String × α)) : Json → Except JsonError α
  | .str name => variantOf variants name
  | .obj [(name, v)] => do
    let a ← variantOf variants name
    match v with
    | .null => return a
    | v => throw (.invalidType (foundIn v) "unit")
  | .obj _ => .error (.invalidValue .map "map with a single key")
  | v => .error (.invalidType (foundIn v) "string or map")

end Decoder

/-- The value of a JSON text. -/
def Json.parse (s : String) : Except JsonError Json := Decoder.run Decoder.value s

end BlockFlow
