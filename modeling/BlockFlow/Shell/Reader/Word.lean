import BlockFlow.Shell.Reader.Basic

/-! # Reading words

A word goes on to the first blank, newline or operator outside quotes.  What stands inside
quotes, braces and expressions is read by the same function, which is told where it is; commands
inside a substitution are read by a reader that it is given.  Each level takes a count of how deep
it may go, which the length of the script bounds. -/

namespace BlockFlow.Shell.Reader

/-- The script between backquotes, and how many characters it takes.  A backslash before a
backquote, a dollar or a backslash goes, and inside double quotes also one before such a quote. -/
def untilBackquote (quoted : Bool) : List Char → List Char → Nat → Option (List Char × Nat)
  | _, [], _ => none
  | acc, '\\' :: c :: cs, taken =>
    let goes := c = '$' || c = '\\' || c = backquote || (quoted && c = '"')
    -- A newline goes with the backslash before it.
    let kept := if c = '\n' then [] else if goes then [c] else [c, '\\']
    untilBackquote quoted (kept ++ acc) cs (taken + 2)
  | acc, c :: cs, taken =>
    if c = backquote then some (acc.reverse, taken + 1)
    else untilBackquote quoted (c :: acc) cs (taken + 1)

/-- Puts a part after the parts of a word, the last of which comes first; neighbouring texts of one
kind become one. -/
def pushPart (p : Part) (before : List Part) : List Part :=
  match p, before with
  | .text s q, .text t r :: ps =>
    if q = r then .text (t ++ s) q :: ps else .text s q :: .text t r :: ps
  | p, ps => p :: ps

/-- Whether a use takes its argument as a pattern. -/
def isTrim : ParameterUse → Bool
  | .trimFront _ | .trimBack _ => true
  | _ => false

/-- Whether a character is the name of a parameter of its own. -/
def isSpecial (c : Char) : Bool := ['@', '*', '#', '?', '-', '$', '!'].contains c

/-- How the braces of a parameter go on after its name. -/
inductive Braces where
  /-- They close, and the value is meant. -/
  | close
  | argument (use : ParameterUse)
  /-- A text follows the value, and with it the word comes to its end. -/
  | last

/-! ## Places -/

/-- What a word is read for. -/
inductive Purpose where
  | command
  /-- The mark of a here-document, in which nothing is expanded. -/
  | mark
  /-- A text in which quotes mean themselves; a here-document ends with its mark. -/
  | document (mark : Option (List Char)) (strips : Bool)

/-- Whether quotes mean themselves. -/
def Purpose.isDocument : Purpose → Bool
  | document .. => true
  | _ => false

/-- Where a run of parts stands. -/
inductive Place where
  /-- In a word of a command. -/
  | word
  /-- Between double quotes, perhaps inside braces. -/
  | quotes (inBraces : Bool)
  /-- In a document, outside everything else. -/
  | document
  /-- In the argument of a parameter, up to the closing brace. -/
  | argument (quoted : Bool)
  /-- In an arithmetic expression with so many open parentheses. -/
  | expression (open_ : Nat)
  deriving DecidableEq

namespace Place

/-- Whether text means itself. -/
def quoted : Place → Bool
  | word => false
  | quotes _ | document | expression _ => true
  | argument quoted => quoted

/-- Whether a run of parts ends before this character. -/
def endsAt (c : Char) : Place → Bool
  | word => endsWord c
  | quotes _ => c = '"'
  | argument _ => c = '}'
  | document | expression _ => false

/-- Whether a backslash before a character goes. -/
def escapes (inDocument : Bool) (c : Char) (place : Place) : Bool :=
  let always := ['$', '\\', backquote].contains c
  match place with
  | word | argument false => true
  | quotes inBraces => always || c = '"' || (inBraces && c = '}')
  | argument true => always || c = '"' || c = '}'
  | document | expression _ => always || (!inDocument && c = '"')

/-- Where the argument of a parameter stands. -/
def inner (use : ParameterUse) (place : Place) : Place := argument (place.quoted && !isTrim use)

/-- Whether a character is ordinary text, also beside others. -/
def isPlain (c : Char) (place : Place) : Bool :=
  !(['\\', '\'', '"', '$', backquote, '\n'].contains c) &&
    match place with
    | word => !endsWord c
    | quotes _ | document => true
    | argument _ => c ≠ '}'
    | expression _ => c ≠ '(' && c ≠ ')'

end Place

/-! ## Home directories -/

/-- The parts of plain text with the names of home directories in it.  `start` says that one may
begin here, and `goesOn` that the word goes on after the text; inside a value, one may also begin
after a colon. -/
def homesIn (inValue goesOn : Bool) : Nat → Bool → List Char → List Part → List Part
  | 0, _, _, before => before
  | _ + 1, _, [], before => before
  | fuel + 1, start, c :: cs, before =>
    let name := cs.takeWhile (fun d => d ≠ '/' && !(inValue && d = ':'))
    if c = '~' && start && !(goesOn && name.length = cs.length) then
      homesIn inValue goesOn fuel false (cs.drop name.length)
        (.home (String.ofList name) inValue :: before)
    else
      -- Up to the next colon, behind which a home directory may begin.
      let run := c :: if c = ':' then [] else cs.takeWhile (· ≠ ':')
      homesIn inValue goesOn fuel (inValue && c = ':') (cs.drop (run.length - 1))
        (pushPart (.text (String.ofList run) false) before)

/-- A word with the names of home directories in it; `start` says that one may begin here. -/
def withHomes (inValue : Bool) : Bool → Word → Word
  | _, [] => []
  | start, .text s false :: rest =>
    (homesIn inValue (!rest.isEmpty) (s.length + 1) start s.toList []).reverse ++
      withHomes inValue (inValue && s.toList.getLast? = some ':') rest
  | _, p :: rest => p :: withHomes inValue false rest

/-- A word of a command with the names of home directories in it: at its beginning, or in its value
if it looks like an assignment. -/
def wordWithHomes (w : Word) : Word :=
  match assignment? w with
  | some (name, value) =>
    match withHomes true true value with
    | .text s false :: rest => .text (name ++ "=" ++ s) false :: rest
    | rest => .text (name ++ "=") false :: rest
  | none => withHomes false true w

/-! ## Parts -/

variable (script : Bool → Reader Command) (purpose : Purpose)

/-- The commands between backquotes. -/
def backquoted (inner : List Char) : Reader Command := do
  let s ← get
  set { s with rest := inner, line := 1, announced := [], replaced := [], alsoAlias := [] }
  let c ← script false
  set { s with documents := (← get).documents }
  return c

/-- Looks whether a here-document ends at this line.  If so, nothing is left until it is left as
well.  The result is a text that begins the line. -/
def lineStart : Reader (Option String) := do
  match purpose with
  | .document (some mark) strips => do
    joinLines
    let tabs := ((← rest).takeWhile (fun c => strips && c = '\t')).length
    drop tabs
    let cs ← rest
    match afterMark? mark cs with
    | some after => do
      drop (cs.length - after.length)
      modify fun s => { s with rest := [], beyond := some after }
      return none
    | none =>
      match tabs, cs with
      | _ + 1, '\\' :: '\n' :: cs => do
        modify fun s => { s with rest := cs }
        return some "\\\n"
      | _, _ => return none
  | _ => return none

/-- Adds a newline and what begins the next line. -/
def afterNewline (quoted : Bool) (before : List Part) : Reader (List Part) := do
  drop 1
  let before := pushPart (.text "\n" quoted) before
  match ← lineStart purpose with
  | some s => return pushPart (.text s true) before
  | none => return before

/-- What is missing where a text has come to its end inside quotes. -/
def openQuotes : String :=
  if purpose.isDocument then "Missing '\x7d'" else "Unterminated quoted string"

/-- The text up to a single quote. -/
def untilQuote : Nat → List Part → Reader (List Part)
  | 0, _ => fail "too deep"
  | fuel + 1, before => do
    let run := (← rest).takeWhile (fun c => c ≠ '\'' && c ≠ '\n')
    drop run.length
    let before := pushPart (.text (String.ofList run) true) before
    match ← rest with
    | [] => fail (openQuotes purpose)
    | '\n' :: _ => do untilQuote fuel (← afterNewline purpose true before)
    | _ => do
      drop 1
      return before

/-- What follows the name of a parameter in braces, beginning with a character that has just been
read. -/
def bracesAfter (c : Char) : Reader Braces := do
  let ofSign (orEmpty : Bool) : Char → Braces
    | '-' => .argument (.default orEmpty)
    | '=' => .argument (.assign orEmpty)
    | '?' => .argument (.require orEmpty)
    | '+' => .argument (.alternative orEmpty)
    | '}' => if orEmpty then .last else .close
    | _ => .argument .invalid
  match c with
  | '#' => return .argument (.trimFront (← takeIf '#'))
  | '%' => return .argument (.trimBack (← takeIf '%'))
  | ':' =>
    match ← peek with
    | some d => do
      skip
      return ofSign true d
    | none => return .argument .invalid
  | c => return ofSign false c

/-- What follows the name of a parameter in braces. -/
def bracesHere : Reader Braces := do
  match ← peek with
  | some c => do
    skip
    bracesAfter c
  | none => return .argument .invalid

/-- The name at this place, which `c` begins: digits, or letters and digits. -/
def nameFrom (c : Char) (fuel : Nat) : Reader String := do
  return String.ofList (← takeMany (if c.isDigit then Char.isDigit else inName) fuel)

/-- A parameter in braces, after a number sign: that sign may be the parameter, or the length of
another one may be asked for. -/
def measured (fuel : Nat) : Reader (String × Braces) := do
  match ← peek with
  | none => return ("#", .argument .invalid)
  | some c =>
    if inName c then do
      let name ← nameFrom c fuel
      return (name, .argument (if (← peek) = some '}' then .length else .invalid))
    else do
      skip
      if c ≠ '}' && (← peek) = some '}' then
        return if isSpecial c then (String.ofList [c], .argument .length)
          else ("", .argument .invalid)
      else return ("#", ← bracesAfter c)

/-- A parameter in braces, after the opening one. -/
def parameter (fuel : Nat) : Reader (String × Braces) := do
  match ← peek with
  | none => return ("", .argument .invalid)
  | some c =>
    if inName c then do
      let name ← nameFrom c fuel
      return (name, ← bracesHere)
    else if c = '}' then return ("", .argument .invalid)
    else do
      skip
      if c = '#' then measured fuel
      else if isSpecial c then return (String.ofList [c], ← bracesHere)
      else return ("", .argument .invalid)

/-- The parts of a word from here on, after those in `before`, the last of which comes first;
`script` reads commands, up to a closing parenthesis if it is told so. -/
def parts : Nat → Place → List Part → Reader Word
  | 0, _, _ => fail "too deep"
  | fuel + 1, place, before => do
    let quoted := place.quoted
    joinLines
    match ← rest with
    | [] => return before.reverse
    | c :: tail =>
      if place.endsAt c then return before.reverse
      else if c = '\n' then do parts fuel place (← afterNewline purpose quoted before)
      else if c = '\\' then
        match tail with
        | [] => do
          drop 1
          parts fuel place (pushPart (.text "\\" true) before)
        | d :: _ => do
          drop 2
          let goes := place.escapes purpose.isDocument d
          let s := String.ofList (if goes then [d] else ['\\', d])
          parts fuel place (pushPart (.text s true) before)
      else if c = '\'' && !quoted then do
        drop 1
        parts fuel place (← untilQuote purpose fuel (pushPart (.text "" true) before))
      else if c = '"' && (place matches .word | .argument _) then do
        drop 1
        let inner ← parts fuel (.quotes (place ≠ .word)) []
        if !(← takeIf '"') then fail (openQuotes purpose)
        -- Quotes make a field of a word even if nothing is in them, but not around the arguments.
        let before := match inner with
          | [.parameter "@" .value [] _] => before
          | _ => .text "" true :: before
        parts fuel place (inner.reverse ++ before)
      else if c = '$' then do
        drop 1
        match purpose, ← peek with
        | .mark, _ => parts fuel place (pushPart (.text "$" quoted) before)
        | _, some '(' => do
          drop 1
          if ← takeIf '(' then
            let expression ← parts fuel (.expression 0) []
            if !(← takeIf ')') then fail "Missing '))'"
            parts fuel place (.arithmetic expression quoted :: before)
          else
            let c ← script true
            parts fuel place (.substitution c quoted :: before)
        | _, some '\x7b' => do
          drop 1
          let (name, braces) ← parameter fuel
          match braces with
          | .close => parts fuel place (.parameter name .value [] quoted :: before)
          | .last => do
            let last ← parts fuel (.argument quoted) []
            if !(← takeIf '}') then fail (if quoted then openQuotes purpose else "Missing '\x7d'")
            -- What follows is read, and counts for nothing.
            discard (parts fuel place [])
            return before.reverse ++ .parameter name .value [] quoted :: last
          | .argument use => do
            let inner := place.inner use
            let argument ← parts fuel inner []
            if !(← takeIf '}') then
              fail (if inner.quoted then openQuotes purpose else "Missing '\x7d'")
            let argument := if inner.quoted then argument else withHomes false true argument
            parts fuel place (.parameter name use argument quoted :: before)
        | _, some d =>
          if beginsName d || d.isDigit || isSpecial d then do
            let name ← if beginsName d then takeMany inName fuel else
              drop 1
              pure [d]
            parts fuel place (.parameter (String.ofList name) .value [] quoted :: before)
          else parts fuel place (pushPart (.text "$" quoted) before)
        | _, none => parts fuel place (pushPart (.text "$" quoted) before)
      else if c = backquote && !(purpose matches .mark) then
        match untilBackquote quoted [] tail 0 with
        | none => do
          drop (tail.length + 1)
          fail "EOF in backquote substitution"
        | some (inner, length) => do
          drop (length + 1)
          let c ← backquoted script inner
          parts fuel place (.substitution c quoted :: before)
      else
        match place with
        | .expression open_ => do
          let run := c :: if place.isPlain c then tail.takeWhile place.isPlain else []
          drop run.length
          -- The first one of the two that close; the second one is taken by whoever reads the
          -- expression.
          if c = ')' && open_ = 0 && (← peek) = some ')' then return before.reverse
          let open_ := if c = '(' then open_ + 1 else if c = ')' then open_ - 1 else open_
          parts fuel (.expression open_) (pushPart (.text (String.ofList run) quoted) before)
        | _ => do
          let run := c :: if place.isPlain c then tail.takeWhile place.isPlain else []
          drop run.length
          parts fuel place (pushPart (.text (String.ofList run) quoted) before)

end BlockFlow.Shell.Reader
