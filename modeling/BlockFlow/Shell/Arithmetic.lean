import BlockFlow.Shell.Reader.Basic

/-! # Arithmetic expressions

Integers, variables, parentheses, the operations of arithmetic, on bits and of logic, comparisons,
conditional expressions and assignments, with the usual precedence.  A comparison is 1 or 0.
Results wrap around like signed words of 64 bits.  What the left side of `&&`, `||` or `?` decides
against is read without being evaluated.  What has been assigned before a failure stays. -/

namespace BlockFlow.Shell.Arithmetic

/-- Why an expression has no value. -/
inductive Failure where
  | divisionByZero
  /-- A quotient is too great for a word. -/
  | quotientTooGreat
  /-- Something else stands where this must stand. -/
  | expecting (what : String)
  /-- The value of a variable is no number. -/
  | notANumber (text : String)
  deriving DecidableEq, Inhabited, Repr

/-- The wording of a failure of an expression. -/
def Failure.message (expression : String) : Failure → String
  | .divisionByZero => "arithmetic expression: division by zero: \"" ++ expression ++ "\""
  | .quotientTooGreat => "quotient too great"
  | .expecting what =>
    "arithmetic expression: expecting " ++ what ++ ": \"" ++ expression ++ "\""
  | .notANumber text => "Illegal number: " ++ text

/-- A token of an expression. -/
inductive Token where
  | number (n : Int)
  | name (s : String)
  | sign (s : String)
  deriving DecidableEq, Inhabited, Repr

/-- Signs of more than one character, the longest first. -/
def longSigns : List String :=
  ["<<=", ">>=", "<=", ">=", "==", "!=", "&&", "||", "<<", ">>", "+=", "-=", "*=", "/=", "%=", "&=",
    "^=", "|="]

/-! ## Numbers -/

/-- The value of a digit; letters go on after nine. -/
def digitValue (c : Char) : Nat :=
  if c.isDigit then c.toNat - '0'.toNat else c.toLower.toNat - 'a'.toNat + 10

/-- The value of digits in a base. -/
def valueIn (base : Nat) (ds : List Char) : Nat :=
  ds.foldl (fun n d => n * base + digitValue d) 0

/-- Whether a character is a hexadecimal digit. -/
def isHexDigit (c : Char) : Bool := c.isDigit || ('a' ≤ c.toLower && c.toLower ≤ 'f')

/-- The number at the front of a text, and the length of its text. -/
def numberAt (cs : List Char) : Nat × Nat :=
  let decimal (cs : List Char) : Nat × Nat :=
    let base := if cs.head? = some '0' then 8 else 10
    let ds := cs.takeWhile (fun c => c.isDigit && digitValue c < base)
    (valueIn base ds, ds.length)
  match cs with
  | '0' :: x :: c :: tail =>
    if (x = 'x' || x = 'X') && isHexDigit c then
      let ds := (c :: tail).takeWhile isHexDigit
      (valueIn 16 ds, ds.length + 2)
    else decimal cs
  | cs => decimal cs

/-- The greatest number. -/
def greatest : Nat := 9223372036854775807

/-- Whether a character is blank. -/
def isBlank (c : Char) : Bool := c = ' ' || ('\t' ≤ c && c ≤ '\r')

/-- The number that the value of a variable is; a blank one is zero. -/
def numberOf (text : String) : Except Failure Int :=
  let cs := text.toList.dropWhile isBlank
  let negative := cs.head? = some '-'
  let digits := if negative || cs.head? = some '+' then cs.drop 1 else cs
  let (n, length) := numberAt digits
  let limit := if negative then greatest + 1 else greatest
  if (length = 0 && !cs.isEmpty) || !(digits.drop length).all isBlank || limit < n then
    .error (.notANumber text)
  else .ok (if negative then -n else n)

/-! ## Tokens -/

/-- The tokens of an expression. -/
def tokens : Nat → List Char → List Token
  | 0, _ => []
  | _ + 1, [] => []
  | fuel + 1, c :: cs =>
    if c = ' ' || c = '\t' || c = '\n' then tokens fuel cs
    else if c.isDigit then
      let (n, length) := numberAt (c :: cs)
      .number (min n greatest) :: tokens fuel ((c :: cs).drop length)
    else if beginsName c then
      let name := nameAt (c :: cs)
      .name (String.ofList name) :: tokens fuel ((c :: cs).drop name.length)
    else
      match longSigns.find? (fun s => s.toList.isPrefixOf (c :: cs)) with
      | some s => .sign s :: tokens fuel ((c :: cs).drop s.length)
      | none => .sign (String.ofList [c]) :: tokens fuel cs

/-! ## Evaluation -/

/-- The operators, the loosest first. -/
def levels : List (List String) :=
  [["|"], ["^"], ["&"], ["==", "!="], ["<", "<=", ">", ">="], ["<<", ">>"], ["+", "-"],
    ["*", "/", "%"]]

/-- The operators that combine an operation with an assignment. -/
def combined : List String := ["<<=", ">>=", "+=", "-=", "*=", "/=", "%=", "&=", "^=", "|="]

/-- The operation that an assignment operator makes first, if it is one. -/
def assigning (sign : String) : Option String :=
  if sign = "=" then some ""
  else if combined.contains sign then some (String.ofList sign.toList.dropLast)
  else none

/-- The value of a comparison. -/
def truth (b : Bool) : Int := if b then 1 else 0

/-- A number as a word of 64 bits. -/
def word (n : Int) : BitVec 64 := BitVec.ofInt 64 n

/-- Checks that two numbers have a quotient. -/
def checkQuotient (a b : Int) : Except Failure Unit :=
  if b = 0 then .error .divisionByZero
  else if (greatest : Int) < a.tdiv b then .error .quotientTooGreat
  else .ok ()

/-- The value of an operation. -/
def operate (op : String) (a b : Int) : Except Failure Int :=
  match op with
  | "|" => .ok (word a ||| word b).toInt
  | "^" => .ok (word a ^^^ word b).toInt
  | "&" => .ok (word a &&& word b).toInt
  | "==" => .ok (truth (a = b))
  | "!=" => .ok (truth (a ≠ b))
  | "<" => .ok (truth (a < b))
  | "<=" => .ok (truth (a ≤ b))
  | ">" => .ok (truth (a > b))
  | ">=" => .ok (truth (a ≥ b))
  | "<<" => .ok (word a <<< (b.emod 64).toNat).toInt
  | ">>" => .ok ((word a).sshiftRight (b.emod 64).toNat).toInt
  | "+" => .ok (word (a + b)).toInt
  | "-" => .ok (word (a - b)).toInt
  | "*" => .ok (word (a * b)).toInt
  | "/" => do
    checkQuotient a b
    return a.tdiv b
  | "%" => do
    checkQuotient a b
    return a.tmod b
  | _ => .ok b

/-- How far an expression has been evaluated. -/
structure Progress where
  tokens : List Token
  /-- The values of variables that the expression has changed, the last one first. -/
  assigned : List (String × Int) := []

/-- A part of an evaluation. -/
abbrev Evaluation := ExceptT Failure (StateM Progress)

/-- Goes on with a value, if there is one. -/
def valueOrFailure : Except Failure Int → Evaluation Int
  | .ok n => pure n
  | .error e => throw e

/-- Drops a token. -/
def advance : Evaluation Unit := modify fun p => { p with tokens := p.tokens.drop 1 }

/-- The sign at this place, empty if there is none. -/
def signHere : Evaluation String := do
  match (← get).tokens with
  | .sign s :: _ => return s
  | _ => return ""

/-- The value of a variable. -/
def valueOf (value : String → String) (name : String) : Evaluation Int := do
  match (← get).assigned.find? (fun a => a.1 = name) with
  | some (_, n) => return n
  | none => valueOrFailure (numberOf (value name))

mutual

/-- An assignment or a conditional expression; `skip` says that it is not evaluated. -/
def assignment (value : String → String) : Nat → Bool → Evaluation Int
  | 0, _ => throw (.expecting "primary")
  | fuel + 1, skip => do
    match (← get).tokens with
    | .name x :: .sign s :: _ =>
      match assigning s with
      | none => conditional value fuel skip
      | some op => do
        advance
        advance
        let n ← assignment value fuel skip
        if skip then return n
        let n ← if op = "" then pure n else valueOrFailure (operate op (← valueOf value x) n)
        modify fun p => { p with assigned := (x, n) :: p.assigned }
        return n
    | _ => conditional value fuel skip

/-- A conditional expression. -/
def conditional (value : String → String) : Nat → Bool → Evaluation Int
  | 0, _ => throw (.expecting "primary")
  | fuel + 1, skip => do
    let a ← disjunction value fuel skip
    if (← signHere) ≠ "?" then return a
    advance
    let b ← assignment value fuel (skip || a = 0)
    if (← signHere) ≠ ":" then throw (.expecting "':'")
    advance
    let c ← conditional value fuel (skip || a ≠ 0)
    return if a ≠ 0 then b else c

/-- Alternatives joined by `||`. -/
def disjunction (value : String → String) : Nat → Bool → Evaluation Int
  | 0, _ => throw (.expecting "primary")
  | fuel + 1, skip => do
    let a ← conjunction value fuel skip
    if (← signHere) ≠ "||" then return a
    advance
    let b ← disjunction value fuel (skip || a ≠ 0)
    return truth (a ≠ 0 || b ≠ 0)

/-- Conditions joined by `&&`. -/
def conjunction (value : String → String) : Nat → Bool → Evaluation Int
  | 0, _ => throw (.expecting "primary")
  | fuel + 1, skip => do
    let a ← expression value fuel levels skip
    if (← signHere) ≠ "&&" then return a
    advance
    let b ← conjunction value fuel (skip || a = 0)
    return truth (a ≠ 0 && b ≠ 0)

/-- An expression of the operators of these levels. -/
def expression (value : String → String) : Nat → List (List String) → Bool → Evaluation Int
  | 0, _, _ => throw (.expecting "primary")
  | fuel + 1, [], skip => operand value fuel skip
  | fuel + 1, level :: tighter, skip => do
    let a ← expression value fuel tighter skip
    operations value fuel level tighter a skip

/-- The operations of one level that follow a value. -/
def operations (value : String → String) :
    Nat → List String → List (List String) → Int → Bool → Evaluation Int
  | 0, _, _, _, _ => throw (.expecting "primary")
  | fuel + 1, level, tighter, a, skip => do
    let op ← signHere
    if !level.contains op then return a
    advance
    let b ← expression value fuel tighter skip
    let a ← if skip then pure b else valueOrFailure (operate op a b)
    operations value fuel level tighter a skip

/-- A number, a variable, an expression in parentheses, or an operand with a sign before it. -/
def operand (value : String → String) : Nat → Bool → Evaluation Int
  | 0, _ => throw (.expecting "primary")
  | fuel + 1, skip => do
    match (← get).tokens with
    | .number n :: _ => do
      advance
      return n
    | .name x :: _ => do
      advance
      if skip then return 0 else valueOf value x
    | .sign s :: _ => do
      advance
      match s with
      | "-" => return (word (-(← operand value fuel skip))).toInt
      | "+" => operand value fuel skip
      | "!" => return truth ((← operand value fuel skip) = 0)
      | "~" => return -(← operand value fuel skip) - 1
      | "(" => do
        let a ← assignment value fuel skip
        if (← signHere) ≠ ")" then throw (.expecting "')'")
        advance
        return a
      | _ => throw (.expecting "primary")
    | [] => throw (.expecting "primary")

end

/-- The value of a whole expression. -/
def whole (value : String → String) (fuel : Nat) : Evaluation Int := do
  let n ← assignment value fuel false
  if (← get).tokens.isEmpty then return n else throw (.expecting "EOF")

/-- The value of an expression, and the variables that it changes, in order. -/
def evaluate (value : String → String) (text : String) :
    Except Failure Int × List (String × Int) :=
  let ts := tokens (text.length + 1) text.toList
  let (r, p) := (whole value (32 * ts.length + 32)).run { tokens := ts }
  (r, p.assigned.reverse)

end BlockFlow.Shell.Arithmetic
