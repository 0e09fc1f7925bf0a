import BlockFlow.Shell.Pattern

/-! # Fields

The pieces of an expanded word are chunks: solid ones, which stay together, and loose ones, which
are split at separators.  A run of blank separators, with at most one other separator in it, ends a
field; blanks before the first field count for nothing.  `fields` makes as many fields as there are,
`fieldsUpTo` at most so many, and the last one then keeps the separators inside it. -/

namespace BlockFlow.Shell

/-- A piece of an expanded word. -/
inductive Chunk where
  /-- Marks that are not split. -/
  | solid (marks : List Mark)
  /-- Bytes that are split at separators; a zero separates arguments. -/
  | loose (bytes : Bytes)
  /-- The end of a field. -/
  | gap
  deriving Inhabited

namespace Chunk

/-- The marks of chunks that are not split. -/
def joined (chunks : List Chunk) : List Mark :=
  chunks.flatMap fun c =>
    match c with
    | .solid ms => ms
    | .loose b => marksOf false b
    | .gap => []

end Chunk

/-- The bytes of marks. -/
def plain (ms : List Mark) : Bytes := ms.map (·.byte)

/-- Which bytes separate fields. -/
structure Separators where
  bytes : Bytes

namespace Separators

/-- Whether a byte separates fields. -/
def has (s : Separators) (b : UInt8) : Bool := b = 0 || s.bytes.contains b

/-- Whether a byte is a blank that separates fields. -/
def hasBlank (s : Separators) (b : UInt8) : Bool :=
  b = 0 || (s.bytes.contains b && (b = 0x20 || b = 0x09 || b = 0x0A))

end Separators

/-- Fields that are complete, the last one first, and the one that is being made. -/
structure Fields where
  complete : List (List Mark) := []
  /-- The marks of the field that is being made, the last one first. -/
  current : Option (List Mark) := none
  /-- Whether the last field was ended by a blank, so that one other separator counts for
  nothing. -/
  afterBlank : Bool := false
  /-- How many fields there may be from the current one on. -/
  limit : Option Nat := none
  /-- How many marks of the last field are kept if nothing but separators follows. -/
  kept : Option Nat := none

namespace Fields

/-- Ends the current field. -/
def close (f : Fields) : Fields :=
  match f.current with
  | some c => { f with complete := c.reverse :: f.complete, current := none }
  | none => f

/-- Adds marks to the current field. -/
def add (f : Fields) (ms : List Mark) : Fields :=
  { f with current := some (ms.reverse ++ f.current.getD []) }

/-- The number of marks in the current field. -/
def length (f : Fields) : Nat := (f.current.getD []).length

/-- Adds a byte of a loose chunk. -/
def addLoose (s : Separators) (f : Fields) (b : UInt8) : Fields :=
  let added := f.add [⟨b, false⟩]
  -- No further field is allowed, so this one keeps separators until it is known where it ends.
  if f.limit = some 0 then
    if s.hasBlank b then { added with kept := some (f.kept.getD f.length) }
    else
      let kept := if s.has b && f.afterBlank then f.kept else none
      { added with kept, afterBlank := false }
  else if f.afterBlank && s.has b then { f with afterBlank := s.hasBlank b }
  else if !s.has b then { added with afterBlank := false }
  else if s.hasBlank b && f.current.isNone then f
  else if f.limit = some 1 then
    { added with limit := some 0, kept := some f.length, afterBlank := s.hasBlank b }
  else
    { f with
      complete := (f.current.getD []).reverse :: f.complete
      current := none
      limit := f.limit.map (· - 1)
      afterBlank := s.hasBlank b }

/-- Adds a chunk. -/
def addChunk (s : Separators) (f : Fields) : Chunk → Fields
  | .solid ms => f.add ms
  | .loose bytes => bytes.foldl (addLoose s) { f with afterBlank := false }
  | .gap => f.close

/-- Leaves out the separators at the end of the last field. -/
def trim (f : Fields) : Fields :=
  match f.kept, f.current with
  | some n, some c =>
    let c := c.drop (c.length - n)
    { f with current := if c.isEmpty then none else some c }
  | _, _ => f

end Fields

/-- The fields of chunks. -/
def fields (s : Separators) (chunks : List Chunk) : List (List Mark) :=
  (chunks.foldl (Fields.addChunk s) {}).close.complete.reverse

/-- The fields of chunks, at most so many. -/
def fieldsUpTo (limit : Nat) (s : Separators) (chunks : List Chunk) : List (List Mark) :=
  (chunks.foldl (Fields.addChunk s) { limit := some limit }).trim.close.complete.reverse

end BlockFlow.Shell
