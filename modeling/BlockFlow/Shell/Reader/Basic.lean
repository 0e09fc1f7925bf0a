import BlockFlow.Shell.Script

/-! # What reads shell scripts

A reader takes characters from the front of a script and counts its lines.  It ends with a syntax
error, which knows its line, if the script cannot go on like this.  A backslash before a newline
joins two lines wherever the next character is looked at by `peek`. -/

namespace BlockFlow.Shell

/-- What a script is made of. -/
inductive Token where
  | endOfText
  | newline
  /-- One of the signs between commands. -/
  | operator (sign : String)
  /-- The sign of a redirection, after the descriptor that it is given. -/
  | redirection (descriptor : Option Nat) (sign : String)
  /-- A word that stands for itself where a command may begin. -/
  | keyword (text : String)
  | word (w : Word)
  deriving Inhabited

/-- A here-document that is announced and begins on the next line. -/
structure Announced where
  /-- Its place among the documents. -/
  number : Nat
  /-- The line that ends it. -/
  mark : List Char
  /-- Whether its lines lose the tabs at their beginning. -/
  strips : Bool
  /-- Whether nothing in it is expanded. -/
  literal : Bool

/-- What is left of a script, and what is known from the part before. -/
structure Source where
  rest : List Char
  line : Nat := 1
  /-- The token that was given back. -/
  pushed : Option Token := none
  /-- The word that was read last. -/
  lastWord : Word := []
  announced : List Announced := []
  /-- The texts of the here-documents so far. -/
  documents : Array Word := #[]
  /-- What follows the here-document that has just come to its end. -/
  beyond : Option (List Char) := none
  /-- The texts that stand for other texts at the beginning of a command. -/
  aliases : List (String × String) := []
  /-- The aliases that have been replaced, each with the number of characters after it. -/
  replaced : List (String × Nat) := []
  /-- Where the next word may be an alias as well: the numbers of characters from there on. -/
  alsoAlias : List Nat := []
  deriving Inhabited

/-- What is wrong with a script, and in which line. -/
structure SyntaxError where
  line : Nat
  what : String
  deriving DecidableEq, Inhabited, Repr

/-- A reader of a script. -/
abbrev Reader := StateT Source (Except SyntaxError)

namespace Reader

/-! ## Characters -/

/-- What is left. -/
def rest : Reader (List Char) := do return (← get).rest

/-- Drops `n` characters. -/
def drop (n : Nat) : Reader Unit :=
  modify fun s => { s with
    rest := s.rest.drop n
    line := s.line + (s.rest.take n).count '\n' }

/-- Drops the next character, which begins no line even if it is a newline. -/
def skip : Reader Unit := modify fun s => { s with rest := s.rest.drop 1 }

/-- Refuses the script. -/
def refuse {α : Type} (what : String) : Reader α := do throw ⟨(← get).line, what⟩

/-- A syntax error. -/
def fail {α : Type} (what : String) : Reader α := refuse ("Syntax error: " ++ what)

/-- A text without the newlines at its front that a backslash takes away, and their number. -/
def joined : List Char → List Char × Nat
  | '\\' :: '\n' :: cs => let (r, n) := joined cs; (r, n + 1)
  | cs => (cs, 0)

/-- Joins lines here. -/
def joinLines : Reader Unit :=
  modify fun s =>
    match s.rest with
    | '\\' :: _ => let (r, n) := joined s.rest; { s with rest := r, line := s.line + n }
    | _ => s

/-- The next character. -/
def peek : Reader (Option Char) := do
  joinLines
  return (← rest).head?

/-- Takes the next character if it is `c`. -/
def takeIf (c : Char) : Reader Bool := do
  if (← peek) = some c then
    drop 1
    return true
  else return false

/-- Takes characters as long as they are as wanted, at most so many. -/
def takeMany (wanted : Char → Bool) : Nat → Reader (List Char)
  | 0 => return []
  | fuel + 1 => do
    match ← peek with
    | some c =>
      if wanted c then do
        drop 1
        return c :: (← takeMany wanted fuel)
      else return []
    | none => return []

/-- Goes to the next token on this line. -/
def skipBlanks : Nat → Reader Unit
  | 0 => return
  | fuel + 1 => do
    match ← peek with
    | some ' ' | some '\t' => do
      drop 1
      skipBlanks fuel
    | some '#' => drop ((← rest).takeWhile (· ≠ '\n')).length
    | _ => return

/-- Whether a character ends a word. -/
def endsWord (c : Char) : Bool :=
  [' ', '\t', '\n', ';', '&', '|', '<', '>', '(', ')'].contains c

/-- A backquote. -/
def backquote : Char := Char.ofNat 0x60

/-- How deep a reader may go on a script of this length. -/
def depthFor (cs : List Char) : Nat := 16 * cs.length + 256

/-! ## Words -/

/-- The text of a word that is free of quotes and expansions. -/
def bare? : Word → Option String
  | [] => some ""
  | [.text s false] => some s
  | _ => none

/-- The name and the value of a word that is an assignment, as it stands in the script. -/
def assignment? : Word → Option (String × Word)
  | .text s false :: rest =>
    let cs := s.toList
    let name := nameAt cs
    match name, cs.drop name.length with
    | _ :: _, '=' :: value =>
      let rest := if value.isEmpty then rest else .text (String.ofList value) false :: rest
      some (String.ofList name, rest)
    | _, _ => none
  | _ => none

/-! ## Here-documents -/

/-- Announces a here-document; the result is its number. -/
def announce (mark : List Char) (strips literal : Bool) : Reader Nat := do
  let number := (← get).documents.size
  modify fun s => { s with
    documents := s.documents.push []
    announced := s.announced ++ [⟨number, mark, strips, literal⟩] }
  return number

/-- What follows the line at the front of a text, if that line is just `mark`. -/
def afterMark? (mark cs : List Char) : Option (List Char) :=
  match mark, cs with
  | [], [] => some []
  | [], c :: cs => if c = '\n' then some cs else none
  | _ :: _, [] => none
  | m :: ms, c :: cs => if m = c then afterMark? ms cs else none

end Reader

end BlockFlow.Shell
