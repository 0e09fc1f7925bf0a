/-! # Bytes as text

`lossy` reads bytes that are not UTF-8 with replacement characters, one for each longest piece that
begins like a character and is not continued as one.  `faithful` reads them so that nothing is lost:
a byte that is no part of a character becomes one of 128 characters for private use, the stand-ins,
and `bytes` makes the byte of it again. -/

namespace BlockFlow.Text

/-- What the front of a byte list is: a character, or a broken piece of some length. -/
inductive Lead where
  | char (c : Char) (length : Nat)
  | broken (length : Nat)

/-- Whether a byte continues a character. -/
def isContinuation (b : UInt8) : Bool := 0x80 ≤ b && b ≤ 0xBF

/-- The bytes that may follow a first byte, and how many continuation bytes come after those. -/
def secondByte (b : UInt8) : Option (UInt8 × UInt8 × Nat) :=
  if 0xC2 ≤ b && b ≤ 0xDF then some (0x80, 0xBF, 0)
  -- Some second bytes would give a form that is too long, a surrogate or no character.
  else if b = 0xE0 then some (0xA0, 0xBF, 1)
  else if b = 0xED then some (0x80, 0x9F, 1)
  else if 0xE1 ≤ b && b ≤ 0xEF then some (0x80, 0xBF, 1)
  else if b = 0xF0 then some (0x90, 0xBF, 2)
  else if 0xF1 ≤ b && b ≤ 0xF3 then some (0x80, 0xBF, 2)
  else if b = 0xF4 then some (0x80, 0x8F, 2)
  else none

/-- The payload of a first byte that is followed by `n` continuation bytes. -/
def leadBits (b : UInt8) (n : Nat) : Nat :=
  if n = 1 then b.toNat % 32 else if n = 2 then b.toNat % 16 else b.toNat % 8

/-- Reads `n` continuation bytes onto a payload; `taken` bytes are read already. -/
def continuations : Nat → Nat → Nat → List UInt8 → Lead
  | 0, taken, bits, _ => .char (Char.ofNat bits) taken
  | n + 1, taken, bits, b :: bs =>
    if isContinuation b then continuations n (taken + 1) (bits * 64 + b.toNat % 64) bs
    else .broken taken
  | _ + 1, taken, _, [] => .broken taken

/-- The front of the bytes `b :: bs`. -/
def lead (b : UInt8) (bs : List UInt8) : Lead :=
  if b < 0x80 then .char (Char.ofNat b.toNat) 1
  else
    match secondByte b, bs with
    | none, _ => .broken 1
    | some _, [] => .broken 1
    | some (low, high, n), c :: cs =>
      if low ≤ c && c ≤ high then
        continuations n 2 (leadBits b (n + 1) * 64 + c.toNat % 64) cs
      else .broken 1

/-- The characters of bytes after those in `acc`, which is reversed. -/
def lossyChars : Nat → List Char → List UInt8 → List Char
  | 0, acc, _ => acc.reverse
  | _ + 1, acc, [] => acc.reverse
  | fuel + 1, acc, b :: bs =>
    match lead b bs with
    | .char c n => lossyChars fuel (c :: acc) (bs.drop (n - 1))
    | .broken n => lossyChars fuel ('\uFFFD' :: acc) (bs.drop (n - 1))

/-- Bytes as text, with replacement characters for what is not UTF-8. -/
def lossy (bytes : ByteArray) : String :=
  String.ofList (lossyChars (bytes.size + 1) [] bytes.data.toList)

/-! ## Stand-ins -/

/-- The number of the character that stands in for the byte zero; only bytes from 0x80 on have one
that is used. -/
def firstStandIn : Nat := 0x10F700

/-- The byte that a character stands in for, if it does. -/
def byteOf? (c : Char) : Option UInt8 :=
  if firstStandIn + 0x80 ≤ c.toNat && c.toNat ≤ firstStandIn + 0xFF then
    some (UInt8.ofNat (c.toNat - firstStandIn))
  else none

/-- The characters of bytes after those in `acc`, which is reversed; nothing is lost. -/
def faithfulChars : Nat → List Char → List UInt8 → List Char
  | 0, acc, _ => acc.reverse
  | _ + 1, acc, [] => acc.reverse
  | fuel + 1, acc, b :: bs =>
    let standIn := Char.ofNat (firstStandIn + b.toNat)
    match lead b bs with
    | .char c n =>
      -- A character that looks like a stand-in is taken apart, or it would be read back as a byte.
      if (byteOf? c).isSome then faithfulChars fuel (standIn :: acc) bs
      else faithfulChars fuel (c :: acc) (bs.drop (n - 1))
    | .broken _ => faithfulChars fuel (standIn :: acc) bs

/-- Bytes as text from which they can be had again. -/
def faithful (bytes : List UInt8) : String :=
  String.ofList (faithfulChars (bytes.length + 1) [] bytes)

/-- The bytes of a text in UTF-8. -/
def encoded (s : String) : List UInt8 := s.toUTF8.data.toList

/-- The bytes of a text, in which stand-ins are bytes again. -/
def bytes (s : String) : List UInt8 :=
  if s.any (fun c => (byteOf? c).isSome) then
    s.toList.flatMap fun c =>
      match byteOf? c with
      | some b => [b]
      | none => encoded (String.singleton c)
  else encoded s

end BlockFlow.Text
