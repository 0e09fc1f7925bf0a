import BlockFlow.Json.Scan

/-! # Reading numbers

A number without fraction and exponent is an integer as long as it fits 64 bits.  Any other is a
float, formed from the leading digits that fit an unsigned 64-bit significand and a power of ten:
the power is multiplied or divided in once, in floating point, so the last digit of the result may
differ from the nearest float. -/

namespace BlockFlow.Json

/-- The greatest significand. -/
def greatestSignificand : Nat := 18446744073709551615

/-- The greatest exponent that is read as such. -/
def greatestExponent : Nat := 2147483647

/-- Takes leading digits into a significand while it stays within its bound.  Returns the
significand, how many digits it took, and what follows them. -/
def absorb : Nat → Nat → List Char → Nat × Nat × List Char
  | sig, taken, c :: cs =>
    if isDigit c && sig * 10 + digitValue c ≤ greatestSignificand then
      absorb (sig * 10 + digitValue c) (taken + 1) cs
    else (sig, taken, c :: cs)
  | sig, taken, [] => (sig, taken, [])

/-- A significand as a float. -/
def significandFloat (sig : Nat) : Float := sig.toUInt64.toFloat

/-- A power of ten as a float. -/
def powerOfTen (n : Nat) : Float := Float.ofScientific 1 false n

/-- The float of `sig · 10^e`, none if it is too great. -/
def scaled (sig : Nat) (e : Int) : Option Float :=
  let f := significandFloat sig
  if sig = 0 then some f
  else if 308 < e then none
  else if 0 ≤ e then
    let g := f * powerOfTen e.toNat
    if g.isInf then none else some g
  else if -308 ≤ e then some (f / powerOfTen (-e).toNat)
  -- The power alone would be too great, so the division is made in two steps.
  else if -616 ≤ e then some (f / powerOfTen 308 / powerOfTen (-e - 308).toNat)
  else some 0.0

/-- The float of `± sig · 10^e`. -/
def floatNumber (negative : Bool) (sig : Nat) (e : Int) : Except JsonError Number :=
  match scaled sig e with
  | some f => .ok (.float (if negative then -f else f))
  | none => .error .numberOutOfRange

/-- The number whose exponent part, after the `e`, is still to be read. -/
def exponentNumber (negative : Bool) (sig : Nat) (start : Int) (cs : List Char) :
    Except JsonError (Number × List Char) := do
  let (down, cs) := match cs with
    | '+' :: r => (false, r)
    | '-' :: r => (true, r)
    | _ => (false, cs)
  match cs with
  | [] => throw .endInValue
  | c :: _ =>
    if isDigit c then
      let digits := cs.takeWhile isDigit
      let rest := cs.dropWhile isDigit
      let amount := digits.foldl (fun n d => n * 10 + digitValue d) 0
      -- Such an amount decides by itself: the number is zero or out of range.
      if greatestExponent < amount then
        if sig ≠ 0 && !down then throw .numberOutOfRange
        else return (.float (if negative then -0.0 else 0.0), rest)
      else
        let e := if down then start - amount else start + amount
        return (← floatNumber negative sig e, rest)
    else throw .invalidNumber

/-- The number whose integer part is read, up to a power of ten for digits that did not fit. -/
def fractionNumber (negative : Bool) (sig : Nat) (whole : Bool) (start : Int) (cs : List Char) :
    Except JsonError (Number × List Char) := do
  match cs with
  | '.' :: cs =>
    match cs with
    | [] => throw .endInValue
    | c :: _ =>
      if isDigit c then
        let (sig, taken, rest) := absorb sig 0 cs
        let rest := rest.dropWhile isDigit
        let e := start - taken
        match rest with
        | c :: r =>
          if c = 'e' || c = 'E' then exponentNumber negative sig e r
          else return (← floatNumber negative sig e, rest)
        | [] => return (← floatNumber negative sig e, rest)
      else throw .invalidNumber
  | c :: r =>
    if c = 'e' || c = 'E' then exponentNumber negative sig start r
    else finish cs
  | [] => finish cs
where
  /-- A number that ends after its integer part. -/
  finish (rest : List Char) : Except JsonError (Number × List Char) := do
    if whole then
      if negative then
        -- Zero with a sign is no integer, nor is what does not fit 64 bits with its sign.
        if sig = 0 || 9223372036854775808 < sig then return (.float (-(significandFloat sig)), rest)
        else return (.int (-sig), rest)
      else return (.int sig, rest)
    else return (← floatNumber negative sig start, rest)

/-- A number, after its sign. -/
def unsignedNumber (negative : Bool) (cs : List Char) : Except JsonError (Number × List Char) :=
  match cs with
  | [] => .error .endInValue
  | c :: r =>
    if c = '0' then
      match r with
      | d :: _ => if isDigit d then .error .invalidNumber else fractionNumber negative 0 true 0 r
      | [] => fractionNumber negative 0 true 0 r
    else if isDigit c then
      let (sig, _, rest) := absorb 0 0 cs
      -- Digits that do not fit count as powers of ten.
      let extra := rest.takeWhile isDigit
      fractionNumber negative sig extra.isEmpty extra.length (rest.dropWhile isDigit)
    else .error .invalidNumber

/-- A number, whose first character is a sign or a digit. -/
def number : List Char → Except JsonError (Number × List Char)
  | '-' :: cs => unsignedNumber true cs
  | cs => unsignedNumber false cs

end BlockFlow.Json
