import BlockFlow.Text.Utf8

/-! # Patterns

A pattern is a list of items, each of which matches one byte, except that a star matches any run of
bytes.  A backslash in the value of an expansion takes its meaning from the byte after it.  Between
brackets stand bytes, ranges, and names of classes; bytes from 0x80 on come before all others
there. -/

namespace BlockFlow.Shell

/-- Text as the shell handles it. -/
abbrev Bytes := List UInt8

/-- The bytes of a text. -/
def bytesOf (s : String) : Bytes := Text.bytes s

/-- The text of bytes, whatever they are. -/
def textOf (b : Bytes) : String := Text.faithful b

/-- A byte of an expanded word; quoted bytes match only themselves. -/
structure Mark where
  byte : UInt8
  quoted : Bool
  deriving DecidableEq, Inhabited, Repr

/-- Whether a mark is this byte without quotes. -/
def Mark.isBare (b : UInt8) (m : Mark) : Bool := m.byte = b && !m.quoted

/-- Bytes as quoted or unquoted marks. -/
def marksOf (quoted : Bool) (bytes : Bytes) : List Mark := bytes.map (⟨·, quoted⟩)

namespace Pattern

/-- An item of a pattern. -/
inductive Item where
  | byte (b : UInt8)
  | any
  | star
  /-- A byte in one of these ranges, or in none if `negated`. -/
  | oneOf (negated : Bool) (ranges : List (UInt8 × UInt8))
  deriving DecidableEq, Inhabited, Repr

/-- Marks without the backslashes that take the meaning of the byte after them. -/
def settled : List Mark → List Mark
  | [] => []
  | [m] => [m]
  | m :: n :: ms =>
    if m.byte = 0x5C && !m.quoted then ⟨n.byte, true⟩ :: settled ms else m :: settled (n :: ms)

/-- The classes of bytes that have names. -/
def classes : List (String × List (UInt8 × UInt8)) := [
  ("alnum", [(0x30, 0x39), (0x41, 0x5A), (0x61, 0x7A)]),
  ("alpha", [(0x41, 0x5A), (0x61, 0x7A)]),
  ("blank", [(0x09, 0x09), (0x20, 0x20)]),
  ("cntrl", [(0x00, 0x1F), (0x7F, 0x7F)]),
  ("digit", [(0x30, 0x39)]),
  ("graph", [(0x21, 0x7E)]),
  ("lower", [(0x61, 0x7A)]),
  ("print", [(0x20, 0x7E)]),
  ("punct", [(0x21, 0x2F), (0x3A, 0x40), (0x5B, 0x60), (0x7B, 0x7E)]),
  ("space", [(0x09, 0x0D), (0x20, 0x20)]),
  ("upper", [(0x41, 0x5A)]),
  ("xdigit", [(0x30, 0x39), (0x41, 0x46), (0x61, 0x66)])]

/-- The named class that begins after an opening bracket, and how many marks it takes. -/
def classAt (ms : List Mark) : Option (List (UInt8 × UInt8) × Nat) :=
  let spelled (name : String) : List Mark := marksOf false (bytesOf (":" ++ name ++ ":]"))
  (classes.find? (fun c => (spelled c.1).isPrefixOf ms)).map (fun c => (c.2, c.1.length + 3))

/-- The ranges between brackets, and the marks after the closing one, which is not the first. -/
def ranges : Nat → Bool → List Mark → Option (List (UInt8 × UInt8) × List Mark)
  | 0, _, _ => none
  | _ + 1, _, [] => none
  | fuel + 1, first, m :: ms =>
    if m.isBare 0x5D && !first then some ([], ms)
    else
      match if m.isBare 0x5B then classAt ms else none, ms with
      | some (rs, length), ms =>
        (ranges fuel false (ms.drop length)).map (fun r => (rs ++ r.1, r.2))
      | none, d :: e :: after =>
        if d.isBare 0x2D && !e.isBare 0x5D then
          (ranges fuel false after).map (fun r => ((m.byte, e.byte) :: r.1, r.2))
        else (ranges fuel false ms).map (fun r => ((m.byte, m.byte) :: r.1, r.2))
      | none, ms => (ranges fuel false ms).map (fun r => ((m.byte, m.byte) :: r.1, r.2))

/-- The items of a pattern without backslashes. -/
def items : Nat → List Mark → List Item
  | 0, _ => []
  | _ + 1, [] => []
  | fuel + 1, m :: ms =>
    if m.isBare 0x2A then .star :: items fuel ms
    else if m.isBare 0x3F then .any :: items fuel ms
    else if m.isBare 0x5B then
      let negated := (ms.head?).any (Mark.isBare 0x21)
      match ranges fuel true (if negated then ms.drop 1 else ms) with
      | some (rs, after) => .oneOf negated rs :: items fuel after
      | none => .byte m.byte :: items fuel ms
    else .byte m.byte :: items fuel ms

/-- The pattern that an expanded word is. -/
def ofMarks (ms : List Mark) : List Item := items (ms.length + 1) (settled ms)

/-- Whether a byte is in a range. -/
def isWithin (b : UInt8) (range : UInt8 × UInt8) : Bool :=
  range.1.toInt8 ≤ b.toInt8 && b.toInt8 ≤ range.2.toInt8

/-- Whether a pattern matches all of a text. -/
def accepts : List Item → Bytes → Bool
  | [], t => t.isEmpty
  | .star :: ps, t => (List.range (t.length + 1)).any (fun n => accepts ps (t.drop n))
  | .byte b :: ps, t =>
    match t with
    | c :: t => b = c && accepts ps t
    | [] => false
  | .any :: ps, t =>
    match t with
    | _ :: t => accepts ps t
    | [] => false
  | .oneOf negated rs :: ps, t =>
    match t with
    | c :: t => (rs.any (isWithin c) != negated) && accepts ps t
    | [] => false

/-- A text without a front that the pattern matches. -/
def trimFront (longest : Bool) (p : List Item) (t : Bytes) : Bytes :=
  let cuts := List.range (t.length + 1)
  let cuts := if longest then cuts.reverse else cuts
  match cuts.find? (fun n => accepts p (t.take n)) with
  | some n => t.drop n
  | none => t

/-- A text without an end that the pattern matches. -/
def trimBack (longest : Bool) (p : List Item) (t : Bytes) : Bytes :=
  let cuts := List.range (t.length + 1)
  let cuts := if longest then cuts else cuts.reverse
  match cuts.find? (fun n => accepts p (t.drop n)) with
  | some n => t.take n
  | none => t

/-- Whether an expanded word has a sign that matches more than itself. -/
def isActive (ms : List Mark) : Bool :=
  (settled ms).any (fun m => m.isBare 0x2A || m.isBare 0x3F || m.isBare 0x5B)

end Pattern

end BlockFlow.Shell
