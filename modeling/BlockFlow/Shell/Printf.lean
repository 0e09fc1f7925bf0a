import BlockFlow.Decimal.Places
import BlockFlow.Shell.System

/-! # Formatted output

`format` is used again as long as arguments are left.  Escapes of the format are read with it; those
of an argument only for `%b`. -/

namespace BlockFlow.Shell.Printf

/-- Whether a byte is an octal digit. -/
def isOctal (b : UInt8) : Bool := 0x30 ≤ b && b ≤ 0x37

/-- The byte that a letter after a backslash stands for. -/
def simpleEscape? (b : UInt8) : Option UInt8 :=
  match Char.ofNat b.toNat with
  | 'a' => some 0x07
  | 'b' => some 0x08
  | 'e' => some 0x1B
  | 'f' => some 0x0C
  | 'n' => some 0x0A
  | 'r' => some 0x0D
  | 't' => some 0x09
  | 'v' => some 0x0B
  | '\\' => some 0x5C
  | _ => none

/-- The value of octal digits. -/
def octal (ds : Bytes) : UInt8 := UInt8.ofNat (ds.foldl (fun n d => n * 8 + (d.toNat - 0x30)) 0)

/-- What a backslash and the bytes after it stand for, and how many of those bytes it takes.  With
`zeroForm`, an octal number has a zero in front. -/
def escape (zeroForm : Bool) (bs : Bytes) : Bytes × Nat :=
  match bs with
  | [] => ([0x5C], 0)
  | b :: rest =>
    if zeroForm && b = 0x30 then
      let ds := (rest.takeWhile isOctal).take 3
      ([octal ds], ds.length + 1)
    else if isOctal b then
      let ds := (bs.takeWhile isOctal).take 3
      ([octal ds], ds.length)
    else
      match simpleEscape? b with
      | some c => ([c], 1)
      | none => ([0x5C], 0)

/-- A text with its escapes replaced; the second part says whether `\c` ended the output. -/
def unescape : Nat → Bytes → Bytes × Bool
  | 0, _ => ([], false)
  | _ + 1, [] => ([], false)
  | fuel + 1, b :: bs =>
    if b = 0x5C then
      if bs.head? = some 0x63 then ([], true)
      else
        let (out, taken) := escape true bs
        let (rest, stop) := unescape fuel (bs.drop taken)
        (out ++ rest, stop)
    else
      let (rest, stop) := unescape fuel bs
      (b :: rest, stop)

/-- How a conversion is laid out. -/
structure Layout where
  leftAligned : Bool := false
  zeros : Bool := false
  /-- What stands before a number that is not negative. -/
  sign : Bytes := []
  /-- Whether a number shows its base. -/
  marked : Bool := false
  width : Nat := 0
  precision : Option Nat := none

/-- Reads the flags of a conversion. -/
def flags : Layout → Bytes → Layout × Bytes
  | l, 0x2D :: bs => flags { l with leftAligned := true } bs
  | l, 0x30 :: bs => flags { l with zeros := true } bs
  | l, 0x2B :: bs => flags { l with sign := [0x2B] } bs
  | l, 0x20 :: bs => flags { l with sign := if l.sign.isEmpty then [0x20] else l.sign } bs
  | l, 0x23 :: bs => flags { l with marked := true } bs
  | l, bs => (l, bs)

/-- The value of a digit; letters go on after nine. -/
def digitValue? (b : UInt8) : Option Nat :=
  if 0x30 ≤ b && b ≤ 0x39 then some (b.toNat - 0x30)
  else if 0x41 ≤ b && b ≤ 0x5A then some (b.toNat - 0x37)
  else if 0x61 ≤ b && b ≤ 0x7A then some (b.toNat - 0x57)
  else none

/-- Whether a byte is a digit in a base. -/
def isDigitIn (base : Nat) (b : UInt8) : Bool :=
  match digitValue? b with
  | some n => n < base
  | none => false

/-- The value of digits in a base. -/
def valueIn (base : Nat) (ds : Bytes) : Nat :=
  ds.foldl (fun n d => n * base + (digitValue? d).getD 0) 0

/-- Fills a text up to the width. -/
def Layout.pad (l : Layout) (text : Bytes) : Bytes :=
  let missing := List.replicate (l.width - text.length) 0x20
  if l.leftAligned then text ++ missing else missing ++ text

/-- Fills a number up to the width: what stands before its digits, and the digits. -/
def Layout.padNumber (l : Layout) (lead digits : Bytes) : Bytes :=
  let least := match l.precision with
    | some n => n
    | none => if l.zeros && !l.leftAligned then l.width - lead.length else 1
  l.pad (lead ++ List.replicate (least - digits.length) 0x30 ++ digits)

/-! ## Whole numbers -/

/-- The base of a number, and its digits. -/
def baseOf : Bytes → Nat × Bytes
  | 0x30 :: x :: ds =>
    if (x = 0x78 || x = 0x58) && ((ds.head?.map (isDigitIn 16)).getD false) then (16, ds)
    else (8, 0x30 :: x :: ds)
  | ds => (10, ds)

/-- The greatest number with a sign. -/
def greatest : Nat := 9223372036854775807

/-- The greatest number without a sign. -/
def greatestUnsigned : Nat := 18446744073709551615

/-- Bytes that stand for blanks before a number. -/
def isBlank (b : UInt8) : Bool := b = 0x20 || (0x09 ≤ b && b ≤ 0x0D)

/-- A number with what is wrong with it: bytes that are no digits, or too many digits. -/
def numeral (signed : Bool) (b : Bytes) : Int × Option String :=
  let text := b.dropWhile isBlank
  let negative := text.head? = some 0x2D
  let (base, ds) := baseOf (if negative || text.head? = some 0x2B then text.drop 1 else text)
  let digits := ds.takeWhile (isDigitIn base)
  let n := valueIn base digits
  let limit := if !signed then greatestUnsigned else if negative then greatest + 1 else greatest
  let value : Int :=
    if limit < n then (if negative && signed then -limit else limit)
    else if negative then -n else n
  if digits.isEmpty then (0, if b.isEmpty then none else some "expected numeric value")
  else if digits.length < ds.length then (value, some "not completely converted")
  else if limit < n then (value, some "Numerical result out of range")
  else (value, none)

/-- The number that an argument means, and what is wrong with it. -/
def number (signed : Bool) (b : Bytes) : Int × Option String :=
  match b with
  | 0x27 :: c :: _ => (c.toNat, none)
  | 0x22 :: c :: _ => (c.toNat, none)
  | [0x27] | [0x22] => (0, none)
  | _ => numeral signed b

/-- How many numbers there are without a sign. -/
def unsignedCount : Nat := 18446744073709551616

/-- The digits of a number in a base. -/
def digitsOf (base : Nat) (upper : Bool) (n : Int) : Bytes :=
  -- A number below zero is written as what its bits are without a sign.
  let magnitude := if n < 0 then unsignedCount - n.natAbs else n.natAbs
  let text := Nat.toDigits base magnitude
  bytesOf (String.ofList (if upper then text.map Char.toUpper else text))

/-! ## Numbers with a point -/

/-- A number with a point. -/
inductive Real where
  | finite (negative : Bool) (value : Decimal.Binary)
  | infinite (negative : Bool)
  | notANumber (negative : Bool)
  deriving DecidableEq, Inhabited, Repr

/-- Whether a text begins with a word, in any case. -/
def beginsWith (word : String) (b : Bytes) : Bool :=
  (textOf (b.take word.length)).toLower = word

/-- A whole number with a sign at the front of a text, and the length of its text. -/
def exponentAt (b : Bytes) : Int × Nat :=
  let negative := b.head? = some 0x2D
  let lead := if negative || b.head? = some 0x2B then 1 else 0
  let ds := (b.drop lead).takeWhile (isDigitIn 10)
  let n : Int := min (valueIn 10 ds) 100000
  if ds.isEmpty then (0, 0) else (if negative then -n else n, ds.length + lead)

/-- The ratio that digits with a point and an exponent mean, in a base, and the length of their
text; `mark` begins the exponent, which counts powers of `unit`. -/
def ratioAt (base unit : Nat) (mark : UInt8) (b : Bytes) : Decimal.Ratio × Nat :=
  let whole := b.takeWhile (isDigitIn base)
  let after := b.drop whole.length
  let part := if after.head? = some 0x2E then (after.drop 1).takeWhile (isDigitIn base) else []
  let pointed := if after.head? = some 0x2E && !(whole.isEmpty && part.isEmpty) then 1 else 0
  let length := whole.length + part.length + pointed
  let after := b.drop length
  let (e, eLength) :=
    if after.head? = some mark || after.head? = some (mark - 0x20) then exponentAt (after.drop 1)
    else (0, 0)
  let scale := Nat.pow base part.length
  if length = 0 then (⟨0, 1⟩, 0)
  else
    (⟨valueIn base (whole ++ part) * Nat.pow unit e.toNat, scale * Nat.pow unit (-e).toNat⟩,
      if eLength = 0 then length else length + eLength + 1)

/-- The length of the parentheses that may follow the text of what is not a number. -/
def payloadLength (b : Bytes) : Nat :=
  let inside := (b.drop 1).takeWhile (fun c => isDigitIn 36 c || c = 0x5F)
  if b.head? = some 0x28 && (b.drop (inside.length + 1)).head? = some 0x29 then inside.length + 2
  else 0

/-- The ratio at the front of a text, and the length of its text. -/
def decimalAt (b : Bytes) : Decimal.Ratio × Nat :=
  let ds := if beginsWith "0x" b then b.drop 2 else []
  let ds := if ds.head? = some 0x2E then ds.drop 1 else ds
  if ds.head?.any (isDigitIn 16) then
    let (r, n) := ratioAt 16 2 0x70 (b.drop 2)
    (r, n + 2)
  else ratioAt 10 10 0x65 b

/-- The number with a point at the front of a text, and the length of its text; the last part says
whether it is out of range. -/
def realAt (negative : Bool) (b : Bytes) : Real × Nat × Bool :=
  if beginsWith "infinity" b then (.infinite negative, 8, false)
  else if beginsWith "inf" b then (.infinite negative, 3, false)
  else if beginsWith "nan" b then (.notANumber negative, 3 + payloadLength (b.drop 3), false)
  else
    let (r, length) := decimalAt b
    match Decimal.Binary.nearest r with
    | some x => (.finite (negative && length ≠ 0) x, length, r.underflows)
    | none => (.infinite negative, length, true)

/-- The number with a point that an argument means, and what is wrong with it. -/
def real (b : Bytes) : Real × Option String :=
  let ofByte (c : UInt8) : Real := .finite false ((Decimal.Binary.nearest ⟨c.toNat, 1⟩).getD ⟨0, 0⟩)
  match b with
  | [] => (ofByte 0, none)
  | 0x27 :: rest | 0x22 :: rest => (ofByte (rest.headD 0), none)
  | b =>
    let text := b.dropWhile isBlank
    let negative := text.head? = some 0x2D
    let text := if negative || text.head? = some 0x2B then text.drop 1 else text
    let (x, length, outOfRange) := realAt negative text
    (x,
      if length = 0 then some "expected numeric value"
      else if length < text.length then some "not completely converted"
      else if outOfRange then some "Numerical result out of range"
      else none)

/-- Digits without the zeros at their end. -/
def withoutZeros (ds : List Char) : List Char := (ds.reverse.dropWhile (· = '0')).reverse

/-- Digits after a point; there is no point if there are none, unless it is asked for. -/
def afterPoint (marked : Bool) (ds : List Char) : List Char :=
  if ds.isEmpty && !marked then [] else '.' :: ds

/-- A ratio without an exponent. -/
def Layout.fixedText (l : Layout) (strip : Bool) (places : Nat) (r : Decimal.Ratio) : List Char :=
  let (whole, part) := r.fixed places
  whole ++ afterPoint l.marked (if strip then withoutZeros part else part)

/-- A ratio with an exponent. -/
def Layout.scientificText (l : Layout) (strip : Bool) (places : Nat) (r : Decimal.Ratio) :
    List Char :=
  let (ds, e) := r.scientific places
  let part := ds.drop 1
  ds.take 1 ++ afterPoint l.marked (if strip then withoutZeros part else part) ++
    ['e', if e < 0 then '-' else '+'] ++ Decimal.digitsOf 2 e.natAbs

/-- A binary number in hexadecimal digits. -/
def Layout.hexadecimalText (l : Layout) (b : Decimal.Binary) : List Char :=
  let bits := Decimal.pow2 52
  let e : Int := if b.mantissa = 0 then 0 else b.exponent + 52
  let lead := b.mantissa / bits
  let (lead, ds) := match l.precision with
    | some p =>
      if p ≥ 13 then (lead, Decimal.pow2 (4 * (p - 13)) * (b.mantissa % bits))
      else
        let n := Decimal.roundDiv b.mantissa (Decimal.pow2 (4 * (13 - p)))
        (n / Decimal.pow2 (4 * p), n % Decimal.pow2 (4 * p))
    | none => (lead, b.mantissa % bits)
  let places := l.precision.getD 13
  let text := Nat.toDigits 16 ds
  let text := List.replicate (places - text.length) '0' ++ text
  let text := if places = 0 then [] else if l.precision.isNone then withoutZeros text else text
  (toString lead).toList ++ afterPoint l.marked text ++
    ['p', if e < 0 then '-' else '+'] ++ (toString e.natAbs).toList

/-- A number with a point as a conversion wants it, without its sign. -/
def Layout.realText (l : Layout) (conversion : Char) (b : Decimal.Binary) : List Char :=
  let places := l.precision.getD 6
  match conversion with
  | 'f' => l.fixedText false places b.ratio
  | 'e' => l.scientificText false places b.ratio
  | 'a' => l.hexadecimalText b
  | _ =>
    let significant := max 1 places
    let (_, e) := b.ratio.scientific (significant - 1)
    if -4 ≤ e && e < significant then
      l.fixedText (!l.marked) (Int.toNat (significant - 1 - e)) b.ratio
    else l.scientificText (!l.marked) (significant - 1) b.ratio

/-- Lays out a number with a point. -/
def Layout.real (l : Layout) (conversion : Char) (x : Real) : Bytes :=
  let lower := conversion.toLower
  let cased (cs : List Char) : Bytes :=
    bytesOf (String.ofList (if lower = conversion then cs else cs.map Char.toUpper))
  let sign (negative : Bool) : Bytes := if negative then [0x2D] else l.sign
  match x with
  | .infinite negative => l.pad (sign negative ++ cased ['i', 'n', 'f'])
  | .notANumber negative => l.pad (sign negative ++ cased ['n', 'a', 'n'])
  | .finite negative b =>
    let lead := sign negative ++ if lower = 'a' then cased ['0', 'x'] else []
    { l with precision := none }.padNumber lead (cased (l.realText lower b))

/-! ## Conversions -/

/-- What one conversion gives. -/
structure Conversion where
  output : Bytes := []
  complaint : Option String := none
  /-- Whether the whole output ends with it. -/
  stop : Bool := false

/-- Lays out an argument; `directive` is the text of the conversion. -/
def convert (l : Layout) (directive : String) (conversion : UInt8) (argument : Bytes) :
    Conversion :=
  let text (b : Bytes) : Bytes := match l.precision with
    | some n => b.take n
    | none => b
  let about (problem : Option String) : Option String :=
    problem.map (fun what => textOf argument ++ ": " ++ what)
  let digits (n : Int) (ds : Bytes) : Bytes := if n = 0 && l.precision = some 0 then [] else ds
  let unsigned (mark : String) (base : Nat) (upper : Bool) : Conversion :=
    let (n, problem) := number false argument
    let lead := if l.marked && n ≠ 0 then bytesOf mark else []
    { output := l.padNumber lead (digits n (digitsOf base upper n)), complaint := about problem }
  match Char.ofNat conversion.toNat with
  | 's' => { output := l.pad (text argument) }
  | 'b' =>
    let (out, stop) := unescape (argument.length + 1) argument
    { output := l.pad (text out), stop }
  | 'c' => { output := l.pad [argument.headD 0] }
  | 'd' | 'i' =>
    let (n, problem) := number true argument
    let lead := if n < 0 then [0x2D] else l.sign
    { output := l.padNumber lead (digits n (bytesOf (toString n.natAbs)))
      complaint := about problem }
  | 'u' => unsigned "" 10 false
  | 'o' => unsigned "0" 8 false
  | 'x' => unsigned "0x" 16 false
  | 'X' => unsigned "0X" 16 true
  | c =>
    if (['a', 'A', 'e', 'E', 'f', 'F', 'g', 'G'] : List Char).contains c then
      let (x, problem) := real argument
      { output := l.real c x, complaint := about problem }
    else { complaint := some (directive ++ ": invalid directive"), stop := true }

/-- How far a format has been used. -/
structure Progress where
  output : Bytes := []
  arguments : List Bytes
  /-- Whether a conversion took an argument or would have taken one. -/
  used : Bool := false
  complaints : List String := []
  status : Nat := 0
  stop : Bool := false

namespace Progress

/-- The next argument. -/
def argument (p : Progress) : Bytes := p.arguments.headD []

/-- Goes on to the argument after the next. -/
def taken (p : Progress) : Progress := { p with arguments := p.arguments.drop 1, used := true }

/-- Adds a complaint, if there is one. -/
def complain (p : Progress) (status : Nat) (complaint : Option String) : Progress :=
  match complaint with
  | none => p
  | some c => { p with complaints := p.complaints ++ [c], status }

/-- Takes the next argument as a number, with its complaint. -/
def takeNumber (p : Progress) : Int × Progress :=
  let (n, problem) := number true p.argument
  (n, (p.complain 1 (problem.map (fun what => textOf p.argument ++ ": " ++ what))).taken)

/-- Adds what a conversion of the next argument gives. -/
def add (p : Progress) (c : Conversion) : Progress :=
  { (p.taken.complain (if c.stop then 2 else 1) c.complaint) with
    output := p.output ++ c.output
    stop := c.stop }

end Progress

/-- A layout with a width, which is on the left if it is negative. -/
def Layout.withWidth (l : Layout) (n : Int) : Layout :=
  { l with width := n.natAbs, leftAligned := l.leftAligned || n < 0 }

/-- Reads the width. -/
def width (l : Layout) (bs : Bytes) (p : Progress) : Layout × Bytes × Progress :=
  match bs with
  | 0x2A :: bs =>
    let (n, p) := p.takeNumber
    (l.withWidth n, bs, p)
  | bs =>
    let digits := bs.takeWhile (isDigitIn 10)
    ({ l with width := valueIn 10 digits }, bs.drop digits.length, p)

/-- Reads the precision. -/
def precision (l : Layout) (bs : Bytes) (p : Progress) : Layout × Bytes × Progress :=
  match bs with
  | 0x2E :: 0x2A :: bs =>
    let (n, p) := p.takeNumber
    (if n < 0 then l else { l with precision := some n.toNat }, bs, p)
  | 0x2E :: bs =>
    let digits := bs.takeWhile (isDigitIn 10)
    ({ l with precision := some (valueIn 10 digits) }, bs.drop digits.length, p)
  | bs => (l, bs, p)

/-- Uses a format once. -/
def pass : Nat → Bytes → Progress → Progress
  | 0, _, p => p
  | _ + 1, [], p => p
  | fuel + 1, b :: bs, p =>
    if b = 0x5C then
      let (out, taken) := escape false bs
      pass fuel (bs.drop taken) { p with output := p.output ++ out }
    else if b = 0x25 then
      if bs.head? = some 0x25 then pass fuel (bs.drop 1) { p with output := p.output ++ [0x25] }
      else
        let (l, rest) := flags {} bs
        let (l, rest, p) := width l rest p
        let (l, rest, p) := precision l rest p
        match rest with
        | [] => { p.complain 2 (some "missing format character") with stop := true }
        | conversion :: rest =>
          -- The text of the conversion, for what is said about it.
          let directive := textOf (b :: bs.take (bs.length - rest.length))
          let p := p.add (convert l directive conversion p.argument)
          if p.stop then p else pass fuel rest p
    else
      let plain := (b :: bs).takeWhile (fun c => c ≠ 0x5C && c ≠ 0x25)
      pass fuel ((b :: bs).drop plain.length) { p with output := p.output ++ plain }

/-- Uses a format until no argument is left, at most so many times. -/
def format (fmt : Bytes) : Nat → Progress → Progress
  | 0, p => p
  | rounds + 1, p =>
    let p := pass (fmt.length + 1) fmt { p with used := false }
    if p.stop || !p.used || p.arguments.isEmpty then p else format fmt rounds p

/-- What arguments come to under a format. -/
def formatted (fmt : Bytes) (arguments : List Bytes) : Progress :=
  format fmt (arguments.length + 1) { arguments }

end BlockFlow.Shell.Printf
