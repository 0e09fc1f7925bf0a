/-! # Shell scripts

A script is a list of commands.  Words are lists of parts, because quoting decides which parts are
split and matched after they are expanded. -/

namespace BlockFlow.Shell

/-! ## Names -/

/-- Whether a character may begin a name. -/
def beginsName (c : Char) : Bool := c.isAlpha || c = '_'

/-- Whether a character may stand in a name. -/
def inName (c : Char) : Bool := c.isAlphanum || c = '_'

/-- The name at the front of a text, empty if there is none. -/
def nameAt : List Char → List Char
  | c :: cs => if beginsName c then c :: cs.takeWhile inName else []
  | [] => []

/-- Whether a text is the name of a variable. -/
def isName (s : String) : Bool := s ≠ "" && nameAt s.toList = s.toList

/-! ## Commands -/

/-- What `${name…}` does with the value of the parameter. -/
inductive ParameterUse where
  /-- The value. -/
  | value
  /-- The number of its bytes. -/
  | length
  /-- The argument, if the parameter is unset, or empty and `orEmpty` holds. -/
  | default (orEmpty : Bool)
  /-- Like `default`, and the parameter gets the argument as its value. -/
  | assign (orEmpty : Bool)
  /-- An error where `default` would take the argument. -/
  | require (orEmpty : Bool)
  /-- The argument where `default` would take the value, and nothing otherwise. -/
  | alternative (orEmpty : Bool)
  /-- The value without a front that matches the argument. -/
  | trimFront (longest : Bool)
  /-- The value without an end that matches the argument. -/
  | trimBack (longest : Bool)
  /-- An error: the text between the braces has no meaning. -/
  | invalid
  deriving DecidableEq, Inhabited, Repr

/-- What a redirection does with a file descriptor. -/
inductive RedirectionKind where
  | input
  | output
  /-- Like `output`, also over a file that is not to be overwritten. -/
  | overwrite
  | append
  | readWrite
  /-- Makes it the same as another descriptor. -/
  | duplicate
  /-- Reads the here-document with this number. -/
  | here (document : Nat)
  deriving DecidableEq, Inhabited, Repr

/-- A redirection of a file descriptor; `target` is a word. -/
structure Redirection (ω : Type) where
  descriptor : Nat
  kind : RedirectionKind
  target : ω
  deriving Inhabited

mutual

/-- A part of a word. -/
inductive Part where
  /-- Text; `quoted` text means itself. -/
  | text (s : String) (quoted : Bool)
  /-- The home directory of a user; inside a word that may be an assignment, it is text unless the
  word is one. -/
  | home (user : String) (inValue : Bool)
  | parameter (name : String) (use : ParameterUse) (argument : List Part) (quoted : Bool)
  /-- The output of commands. -/
  | substitution (script : Command) (quoted : Bool)
  /-- The value of an arithmetic expression. -/
  | arithmetic (expression : List Part) (quoted : Bool)

/-- A command of a script; the number is that of its line. -/
inductive Command where
  /-- Assignments, words and redirections. -/
  | simple (line : Nat) (assignments : List (String × List Part)) (words : List (List Part))
      (redirections : List (Redirection (List Part)))
  | pipeline (negated : Bool) (stages : List Command)
  | andThen (first second : Command)
  | orElse (first second : Command)
  | sequence (commands : List Command)
  | subshell (body : Command)
  /-- A command that is not waited for. -/
  | background (body : Command)
  | conditional (condition body otherwise : Command)
  | loop (until_ : Bool) (condition body : Command)
  /-- Goes through words, or through the arguments if there is no list. -/
  | each (line : Nat) (name : String) (words : Option (List (List Part))) (body : Command)
  | select (line : Nat) (word : List Part) (branches : List (List (List Part) × Command))
  | define (name : String) (body : Command)
  | redirected (line : Nat) (body : Command) (redirections : List (Redirection (List Part)))

end

/-- A word before expansion. -/
abbrev Word := List Part

instance : Inhabited Part := ⟨.text "" false⟩

instance : Inhabited Command := ⟨.sequence []⟩

end BlockFlow.Shell
