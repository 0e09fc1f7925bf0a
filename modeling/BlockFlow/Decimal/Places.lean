import BlockFlow.Decimal.Shortest

/-! # Decimals with a chosen number of places

A binary floating point number is `m · 2^q` with at most 53 bits in `m`.  `Binary.nearest` is the
one nearest to a ratio; `Ratio.fixed` and `Ratio.scientific` write a ratio with so many places after
the point.  A number half-way between two others goes to the even one.  All arithmetic is exact.

* `roundDiv_mul`   a quotient that comes out even is not changed by rounding -/

namespace BlockFlow.Decimal

/-- The quotient of two numbers to the nearest whole number, ties to the even one. -/
def roundDiv (n d : Nat) : Nat :=
  let q := n / d
  let r := n % d
  if 2 * r > d || (2 * r == d && q % 2 == 1) then q + 1 else q

theorem roundDiv_mul (n d : Nat) (h : 0 < d) : roundDiv (n * d) d = n := by
  simp [roundDiv, Nat.mul_div_cancel _ h]
  omega

/-- A ratio that is not negative. -/
structure Ratio where
  numerator : Nat
  denominator : Nat
  deriving DecidableEq, Inhabited, Repr

/-- The number `mantissa · 2^exponent`. -/
structure Binary where
  mantissa : Nat
  exponent : Int
  deriving DecidableEq, Inhabited, Repr

/-- A binary number as a ratio. -/
def Binary.ratio (b : Binary) : Ratio :=
  ⟨b.mantissa * pow2 b.exponent.toNat, pow2 (-b.exponent).toNat⟩

/-- The ratio over a power of two, rounded. -/
def Ratio.scaled (r : Ratio) (q : Int) : Nat :=
  roundDiv (r.numerator * pow2 (-q).toNat) (r.denominator * pow2 q.toNat)

/-- The binary number nearest to a ratio, if that is not too great. -/
def Binary.nearest (r : Ratio) : Option Binary :=
  if r.numerator = 0 then some ⟨0, 0⟩
  else
    let estimate : Int := Int.ofNat r.numerator.log2 - Int.ofNat r.denominator.log2 - 53
    let q := max (-1074) estimate
    -- The estimate may be too small by one.
    let q := if r.scaled q < pow2 53 then q else q + 1
    let m := r.scaled q
    -- Rounding may have made one bit too many.
    let (m, q) := if m = pow2 53 then (pow2 52, q + 1) else (m, q)
    if q > 971 then none else some ⟨m, q⟩

/-- Whether a ratio is too small for the binary numbers with 53 bits, also when it is rounded to so
many, and lies between two of those that are left. -/
def Ratio.underflows (r : Ratio) : Bool :=
  let isSmall := r.numerator * pow2 1076 < r.denominator * (pow2 54 - 1)
  match Binary.nearest r with
  | some b => isSmall && r.numerator * b.ratio.denominator ≠ b.ratio.numerator * r.denominator
  | none => false

/-- The digits of a number, at least so many. -/
def digitsOf (least n : Nat) : List Char :=
  let ds := (toString n).toList
  List.replicate (least - ds.length) '0' ++ ds

/-- A ratio with so many places: the digits before the point and those after it. -/
def Ratio.fixed (r : Ratio) (places : Nat) : List Char × List Char :=
  let ds := digitsOf (places + 1) (roundDiv (r.numerator * pow10 places) r.denominator)
  (ds.take (ds.length - places), ds.drop (ds.length - places))

/-- The greatest exponent, from `e` down, for which ten to it is not above the ratio. -/
def Ratio.lead (r : Ratio) : Nat → Int → Int
  | 0, e => e
  | fuel + 1, e =>
    if r.denominator * pow10 e.toNat ≤ r.numerator * pow10 (-e).toNat then e
    else r.lead fuel (e - 1)

/-- A ratio with one digit before the point and so many after it, and the exponent of ten. -/
def Ratio.scientific (r : Ratio) (places : Nat) : List Char × Int :=
  if r.numerator = 0 then (List.replicate (places + 1) '0', 0)
  else
    let e := r.lead 700 310
    let shift := Int.ofNat places - e
    let n := roundDiv (r.numerator * pow10 shift.toNat) (r.denominator * pow10 (-shift).toNat)
    let ds := digitsOf (places + 1) n
    if ds.length > places + 1 then (ds.take (places + 1), e + 1) else (ds, e)

end BlockFlow.Decimal
