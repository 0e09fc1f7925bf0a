import BlockFlow.Shell.Installed
import BlockFlow.Shell.Printf

/-! # Conditions

The expressions of the command `test`: on texts, on whole numbers and on files, with negation,
conjunction, disjunction and parentheses.  Whether a word is an operator depends on the words around
it. -/

namespace BlockFlow.Shell.Condition

/-- Why an expression is not well-formed. -/
inductive Failure where
  | illegalNumber (operand : Bytes)
  | argumentExpected (operator : Bytes)
  | unexpectedOperator (word : Bytes)
  | parenthesisExpected
  deriving DecidableEq, Inhabited, Repr

/-- The wording of a failure. -/
def Failure.reason : Failure → String
  | .illegalNumber operand => "Illegal number: " ++ textOf operand
  | .argumentExpected operator => textOf operator ++ ": argument expected"
  | .unexpectedOperator word =>
    if word.isEmpty then "unexpected operator" else textOf word ++ ": unexpected operator"
  | .parenthesisExpected => "closing paren expected"

/-- A whole number. -/
def number (b : Bytes) : Except Failure Int :=
  let text := b.dropWhile Printf.isBlank
  let negative := text.head? = some 0x2D
  let digits := if negative || text.head? = some 0x2B then text.drop 1 else text
  let ds := digits.takeWhile (Printf.isDigitIn 10)
  let n := Printf.valueIn 10 ds
  let limit := if negative then Printf.greatest + 1 else Printf.greatest
  if ds.isEmpty || limit < n || !(digits.drop ds.length).all Printf.isBlank then
    .error (.illegalNumber b)
  else .ok (if negative then -n else n)

/-- Where conditions look for files: the kind of thing that stands at a path, its permissions, and
whether two paths name one thing. -/
structure Place where
  look : Bool → Bytes → Option Kind
  mode : Bytes → Option Nat
  same : Bytes → Bytes → Bool

/-- Operators before one operand. -/
def unaryNames : List String :=
  ["-r", "-w", "-x", "-e", "-f", "-d", "-c", "-b", "-p", "-u", "-g", "-k", "-s", "-t", "-z", "-n",
    "-h", "-O", "-G", "-L", "-S"]

/-- Operators between two operands. -/
def binaryNames : List String :=
  ["=", "!=", "<", ">", "-eq", "-ne", "-ge", "-gt", "-le", "-lt", "-nt", "-ot", "-ef"]

/-- Whether a word is an operator before one operand. -/
def isUnary (w : Bytes) : Bool := unaryNames.contains (textOf w)

/-- Whether a word is an operator between two operands. -/
def isBinary (w : Bytes) : Bool := binaryNames.contains (textOf w)

/-- What a test of one operand says. -/
def unary (place : Place) (operator : String) (x : Bytes) : Except Failure Bool :=
  let kind := if x.isEmpty then none else place.look true x
  let permits (bit : Nat) : Bool := (place.mode x).all (fun m => m &&& bit ≠ 0)
  let hasBit (bit : Nat) : Bool := (place.mode x).any (fun m => m &&& bit ≠ 0)
  match operator with
  | "-n" => .ok !x.isEmpty
  | "-z" => .ok x.isEmpty
  | "-e" | "-O" | "-G" => .ok kind.isSome
  | "-r" => .ok (kind.isSome && permits 0o400)
  | "-w" => .ok (kind.isSome && permits 0o200)
  | "-x" =>
    .ok ((kind = some .directory || hasBit 0o111 || (Installed.programAt? (textOf x)).isSome) &&
      permits 0o100)
  | "-f" => .ok (match kind with
    | some (.file _) => true
    | _ => false)
  | "-d" => .ok (kind = some .directory)
  | "-c" => .ok (kind = some .device)
  | "-p" => .ok (kind = some .pipe)
  | "-s" => .ok (match kind with
    | some (.file size) => size ≠ 0
    | k => k = some .directory)
  | "-h" | "-L" => .ok (!x.isEmpty && place.look false x = some .link)
  | "-u" => .ok (hasBit 0o4000)
  | "-g" => .ok (hasBit 0o2000)
  | "-k" => .ok (hasBit 0o1000)
  | "-t" => (number x).map (fun _ => false)
  | _ => .ok false

/-- What a test of two operands says. -/
def binary (place : Place) (operator : String) (x y : Bytes) : Except Failure Bool :=
  match operator with
  | "=" => .ok (x = y)
  | "!=" => .ok (x ≠ y)
  | "<" => .ok (decide (x < y))
  | ">" => .ok (decide (y < x))
  | "-ef" => .ok (place.same x y)
  | "-nt" | "-ot" => .ok false
  | op => do
    let m ← number x
    let n ← number y
    match op with
    | "-eq" => return m = n
    | "-ne" => return m ≠ n
    | "-gt" => return n < m
    | "-ge" => return n ≤ m
    | "-lt" => return m < n
    | _ => return m ≤ n

/-- What the first of some words is. -/
inductive Token where
  | missing
  | operand
  | unary (operator : String)
  | binary (operator : String)
  | negation
  | conjunction
  | disjunction
  | opening
  | closing
  deriving DecidableEq

/-- What the first of some words is.  An operator before one operand is an operand itself if there
is none, or if an operator between two operands follows it. -/
def token : List Bytes → Token
  | [] => .missing
  | w :: rest =>
    let text := textOf w
    if isUnary w then
      match rest with
      | [] => .operand
      | [_] => .unary text
      | x :: _ :: _ => if isBinary x then .operand else .unary text
    else if isBinary w then .binary text
    else if text = "!" then .negation
    else if text = "-a" then .conjunction
    else if text = "-o" then .disjunction
    else if text = ")" then .closing
    else if text = "(" && !rest.isEmpty then .opening
    else .operand

/-- What a part of an expression says, and the words from its last one on. -/
abbrev Reading := Except Failure (Bool × List Bytes)

mutual

/-- Reads a disjunction; the fuel bounds the depth. -/
def disjunction (place : Place) : Nat → List Bytes → Reading
  | 0, _ => .error .parenthesisExpected
  | fuel + 1, ws => do
    let (a, ws) ← conjunction place fuel ws
    if token (ws.drop 1) ≠ .disjunction then return (a, ws)
    let (b, ws) ← disjunction place fuel (ws.drop 2)
    return (a || b, ws)

/-- Reads a conjunction. -/
def conjunction (place : Place) : Nat → List Bytes → Reading
  | 0, _ => .error .parenthesisExpected
  | fuel + 1, ws => do
    let (a, ws) ← negation place fuel ws
    if token (ws.drop 1) ≠ .conjunction then return (a, ws)
    let (b, ws) ← conjunction place fuel (ws.drop 2)
    return (a && b, ws)

/-- Reads a test, perhaps negated. -/
def negation (place : Place) : Nat → List Bytes → Reading
  | 0, _ => .error .parenthesisExpected
  | fuel + 1, ws => do
    if token ws ≠ .negation then primary place fuel ws
    else if token (ws.drop 1) = .missing then return (true, ws)
    else
      let (a, ws) ← negation place fuel (ws.drop 1)
      return (!a, ws)

/-- Reads a test or an expression in parentheses. -/
def primary (place : Place) : Nat → List Bytes → Reading
  | 0, _ => .error .parenthesisExpected
  | _ + 1, [] => return (false, [])
  | fuel + 1, w :: rest =>
    match token (w :: rest) with
    | .opening => do
      if token rest = .closing then return (false, rest)
      let (a, ws) ← disjunction place fuel rest
      if token (ws.drop 1) ≠ .closing then throw .parenthesisExpected
      return (a, ws.drop 1)
    | .unary operator =>
      match rest with
      | [] => throw (.argumentExpected w)
      | x :: _ => do return (← unary place operator x, rest)
    | _ =>
      match token rest, rest with
      | .binary operator, _ :: y :: after => do return (← binary place operator w y, y :: after)
      | .binary operator, _ => throw (.argumentExpected (bytesOf operator))
      | _, _ => return (!w.isEmpty, w :: rest)

end

/-- What an expression says whose words have been grouped. -/
def whole (place : Place) (words : List Bytes) : Except Failure Bool := do
  let (a, ws) ← disjunction place (6 * words.length + 6) words
  match ws with
  | w :: _ :: _ => throw (.unexpectedOperator w)
  | _ => return a

/-- What a condition says, or its contrary if it is `negated`.  Expressions of three and four words
are grouped before they are read: parentheses around the rest, or negations, of which one counts as
much as several. -/
def evaluate (place : Place) (negated : Bool) : List Bytes → Except Failure Bool
  | [] => .ok false
  | first :: rest =>
    let words := first :: rest
    let grouped : Except Failure Bool :=
      if first = [0x28] && words.getLast? = some [0x29] then
        (whole place rest.dropLast).map (· != negated)
      else if first = [0x21] then evaluate place true rest
      else (whole place words).map (· != negated)
    match rest with
    | [op, y] =>
      if isBinary op then (binary place (textOf op) first y).map (· != negated) else grouped
    | [_, _, _] => grouped
    | _ => (whole place words).map (· != negated)

end BlockFlow.Shell.Condition
