/-! # The shortest decimal that reads back

A finite binary floating point number is `m · 2^q`.  Every real number nearer to it than to its
neighbours reads back as the same float; these reals form an interval around the value, ends
included when `m` is even.  `shortest` finds the fewest decimal digits that name a point of the
interval, and of two candidates of that length the nearer one.

All arithmetic is exact: the interval is written with a common denominator, in natural numbers. -/

namespace BlockFlow.Decimal

/-- A power of two. -/
def pow2 (n : Nat) : Nat := Nat.pow 2 n

/-- A power of ten. -/
def pow10 (n : Nat) : Nat := Nat.pow 10 n

/-- The number `digits · 10^exponent`. -/
structure Digits where
  digits : Nat
  exponent : Int
  deriving Repr, DecidableEq

/-- A value and the interval that reads back as it, each a numerator over the common
denominator. -/
structure Target where
  low : Nat
  value : Nat
  high : Nat
  denominator : Nat
  /-- Whether the ends belong to the interval. -/
  closed : Bool

/-- Whether `d · 10^e` lies in the interval. -/
def Target.admits (t : Target) (d : Nat) (e : Int) : Bool :=
  let scaled := d * pow10 e.toNat * t.denominator
  let unit := pow10 (-e).toNat
  if t.closed then t.low * unit ≤ scaled && scaled ≤ t.high * unit
  else t.low * unit < scaled && scaled < t.high * unit

/-- The two multiples of `10^e` next to the value, the lower one first. -/
def Target.floorAt (t : Target) (e : Int) : Nat :=
  t.value * pow10 (-e).toNat / (t.denominator * pow10 e.toNat)

/-- Whether the upper neighbour on the grid of `10^e` is nearer than the lower one; a tie goes to
the even neighbour. -/
def Target.roundsUp (t : Target) (e : Int) : Bool :=
  let unit := t.denominator * pow10 e.toNat
  let rest := t.value * pow10 (-e).toNat % unit
  2 * rest > unit || (2 * rest == unit && t.floorAt e % 2 == 1)

/-- The admissible neighbour of the value on the grid of `10^e`, the nearer one if both are. -/
def Target.onGrid (t : Target) (e : Int) : Option Nat :=
  let lower := t.floorAt e
  let near := if t.roundsUp e then lower + 1 else lower
  let far := if t.roundsUp e then lower else lower + 1
  if t.admits near e && near ≠ 0 then some near
  else if t.admits far e && far ≠ 0 then some far
  else none

/-- Tries the grids of `10^e`, `10^(e-1)` and so on. -/
def Target.search (t : Target) : Nat → Int → Digits
  | 0, e => ⟨t.floorAt e, e⟩
  | fuel + 1, e =>
    match t.onGrid e with
    | some d => ⟨d, e⟩
    | none => t.search fuel (e - 1)

/-- The interval of `m · 2^q`; `narrow` says that the float below is only half as far away. -/
def Target.ofBinary (m : Nat) (q : Int) (narrow : Bool) : Target :=
  let up := pow2 q.toNat
  let down := pow2 (-q).toNat
  -- In quarters of a unit, so that the ends of the interval are whole numbers.
  { low := (4 * m - if narrow then 1 else 2) * up
    value := 4 * m * up
    high := (4 * m + 2) * up
    denominator := 4 * down
    closed := m % 2 == 0 }

/-- Drops trailing zeros. -/
def Digits.trim : Nat → Digits → Digits
  | 0, d => d
  | fuel + 1, d =>
    if d.digits ≠ 0 && d.digits % 10 == 0 then trim fuel ⟨d.digits / 10, d.exponent + 1⟩ else d

/-- The shortest decimal of a positive finite number given by its bits without the sign. -/
def shortest (bits : Nat) : Digits :=
  let fraction := bits % pow2 52
  let biased := bits / pow2 52
  -- The smallest floats have no leading bit that goes without saying.
  let m := if biased = 0 then fraction else pow2 52 + fraction
  let q : Int := if biased = 0 then -1074 else Int.ofNat biased - 1075
  let t := Target.ofBinary m q (fraction == 0 && biased > 1)
  (t.search 700 310).trim 400

/-- How a decimal is laid out as text. -/
structure Layout where
  /-- The decimal exponents of the first digit that are written positionally. -/
  leastPositional : Int
  greatestPositional : Int
  /-- What stands between the digits and an exponent that is not negative. -/
  upMark : String
  /-- What stands between the digits and the amount of a negative exponent. -/
  downMark : String

/-- Writes `d` in a layout. -/
def Layout.write (l : Layout) (d : Digits) : String :=
  let text := toString d.digits
  let count := text.length
  let lead : Int := d.exponent + count - 1
  let zeros (n : Nat) : String := String.ofList (List.replicate n '0')
  if l.leastPositional ≤ lead && lead ≤ l.greatestPositional then
    if 0 ≤ d.exponent then text ++ zeros d.exponent.toNat ++ ".0"
    else if 0 ≤ lead then
      let whole := (lead + 1).toNat
      String.ofList (text.toList.take whole) ++ "." ++ String.ofList (text.toList.drop whole)
    else "0." ++ zeros (-lead - 1).toNat ++ text
  else
    let head := String.ofList (text.toList.take 1)
    let tail := String.ofList (text.toList.drop 1)
    let mantissa := if tail = "" then head else head ++ "." ++ tail
    mantissa ++ (if 0 ≤ lead then l.upMark else l.downMark) ++ toString lead.natAbs

end BlockFlow.Decimal
