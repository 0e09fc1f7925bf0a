import BlockFlow.Shell.Reader.Token

/-! # Reading commands

`next` takes one line with commands after the other, so that what stands before a fault can still be
run.  It goes down through lists, pipelines and commands to words; a line is read to its end before
any of it is run, and a compound command is read to its own end. -/

namespace BlockFlow.Shell.Reader

/-- Commands up to a closing parenthesis, or as far as they go, read by `list`.  A here-document
that is announced and does not begin before the end is empty. -/
def closed (list : Reader Command) (parenthesis : Bool) : Reader Command := do
  let announced := (← get).announced
  modify fun s => { s with announced := [], pushed := none }
  let c ← list
  if parenthesis then
    match (← get).pushed with
    | some (.operator ")") => pure ()
    | t => expected (t.getD .endOfText) "\")\""
  modify fun s => { s with announced, pushed := none }
  return c

/-- The names of commands that keep the assignments before them; none of them names a function. -/
def specialNames : List String :=
  [":", ".", "break", "continue", "eval", "exec", "exit", "export", "local", "readonly", "return",
    "set", "shift", "times", "trap", "unset"]

/-- Where a list of commands stands. -/
inductive ListKind where
  /-- On a line, which ends it. -/
  | line
  /-- In a command that needs one. -/
  | body
  /-- Where there may be no command. -/
  | optional
  deriving DecidableEq

/-- What is looked for where a command may begin on the same line. -/
def Checks.here : Checks := { keywords := true, aliases := true }

/-- What is looked for between the branches of a selection. -/
def Checks.branch : Checks := { newlines := true, keywords := true }

mutual

/-- Commands up to something else. -/
def list : Nat → ListKind → Reader Command
  | 0, _ => fail "too deep"
  | fuel + 1, kind => do return .sequence (← listItems fuel kind false)

/-- What is read inside a substitution. -/
def nested : Nat → Bool → Reader Command
  | 0, _ => fail "too deep"
  | fuel + 1, parenthesis => closed (list fuel .optional) parenthesis

/-- The commands of a list; `begun` says that there is one already. -/
def listItems : Nat → ListKind → Bool → Reader (List Command)
  | 0, _, _ => fail "too deep"
  | fuel + 1, kind, begun => do
    match ← token (nested fuel) fuel { Checks.all with newlines := kind ≠ .line } with
    | .newline => do
      readDocuments (nested fuel) fuel
      return []
    | .endOfText => do
      readDocuments (nested fuel) fuel
      pushBack .endOfText
      return []
    | t => do
      pushBack t
      if (kind = .optional || (kind = .body && begun)) && endsList t then return []
      let c ← andOr fuel
      match ← token (nested fuel) fuel {} with
      | .endOfText => do
        readDocuments (nested fuel) fuel
        pushBack .endOfText
        return [c]
      | .newline => do
        pushBack .newline
        return c :: (← listItems fuel kind true)
      | .operator "&" => return .background c :: (← listItems fuel kind true)
      | .operator ";" => return c :: (← listItems fuel kind true)
      | t => do
        if kind = .line then unexpected t
        pushBack t
        return [c]

/-- Pipelines joined by `&&` and `||`. -/
def andOr : Nat → Reader Command
  | 0 => fail "too deep"
  | fuel + 1 => do andOrRest fuel (← pipeline fuel {})

/-- What is joined to a command by `&&` and `||`. -/
def andOrRest : Nat → Command → Reader Command
  | 0, _ => fail "too deep"
  | fuel + 1, first => do
    match ← token (nested fuel) fuel {} with
    | .operator "&&" => do andOrRest fuel (.andThen first (← pipeline fuel .all))
    | .operator "||" => do andOrRest fuel (.orElse first (← pipeline fuel .all))
    | t => do
      pushBack t
      return first

/-- Commands joined by `|`, perhaps negated. -/
def pipeline : Nat → Checks → Reader Command
  | 0, _ => fail "too deep"
  | fuel + 1, checks => do
    match ← token (nested fuel) fuel checks with
    | .keyword "!" => return .pipeline true (← stages fuel .here)
    | t => do
      pushBack t
      match ← stages fuel {} with
      | [c] => return c
      | cs => return .pipeline false cs

/-- The commands of a pipeline. -/
def stages : Nat → Checks → Reader (List Command)
  | 0, _ => fail "too deep"
  | fuel + 1, checks => do
    let c ← command fuel checks
    match ← token (nested fuel) fuel {} with
    | .operator "|" => return c :: (← stages fuel .all)
    | t => do
      pushBack t
      return [c]

/-- One command with its redirections. -/
def command : Nat → Checks → Reader Command
  | 0, _ => fail "too deep"
  | fuel + 1, checks => do
    let line := (← get).line
    match ← token (nested fuel) fuel checks with
    | .operator "(" => do
      let body ← list fuel .body
      expectOperator (nested fuel) fuel {} ")"
      wrap fuel line (.subshell body)
    | .keyword "\x7b" => do
      let body ← list fuel .body
      expectKeyword (nested fuel) fuel {} "\x7d"
      wrap fuel line body
    | .keyword "if" => do wrap fuel line (← conditional fuel)
    | .keyword "while" => do wrap fuel line (← loop fuel false)
    | .keyword "until" => do wrap fuel line (← loop fuel true)
    | .keyword "for" => do wrap fuel line (← each fuel line)
    | .keyword "case" => do wrap fuel line (← select fuel line)
    | .word w => do
      pushBack (.word w)
      simple fuel (← get).line false [] [] []
    | .redirection d sign => do
      pushBack (.redirection d sign)
      simple fuel (← get).line false [] [] []
    | t => unexpected t

/-- A simple command, after these assignments, words and redirections of it, the last of which come
first; `begun` says that its first word has been read. -/
def simple : Nat → Nat → Bool → List (String × Word) → List Word → List (Redirection Word) →
    Reader Command
  | 0, _, _, _, _, _ => fail "too deep"
  | fuel + 1, line, begun, as, ws, rs => do
    match ← token (nested fuel) fuel { aliases := !begun } with
    | .word w =>
      match if begun then none else assignment? w with
      | some (name, value) =>
        simple fuel line false ((name, withHomes true true value) :: as) ws rs
      | none => simple fuel line true as (wordWithHomes w :: ws) rs
    | .redirection d sign => do
      simple fuel line begun as ws ((← redirection (nested fuel) fuel d sign) :: rs)
    -- After a single word, a function is defined.
    | .operator "(" =>
      match as, ws, rs with
      | [], [w], [] => do
        expectOperator (nested fuel) fuel {} ")"
        match bare? w with
        | some name => do
          if !isName name || specialNames.contains name then fail "Bad function name"
          return .define name (← command fuel .all)
        | none => fail "Bad function name"
      | _, _, _ => do
        pushBack (.operator "(")
        return .simple line as.reverse ws.reverse rs.reverse
    | t => do
      pushBack t
      return .simple line as.reverse ws.reverse rs.reverse

/-- The redirections after a compound command. -/
def redirections : Nat → Checks → Reader (List (Redirection Word))
  | 0, _ => fail "too deep"
  | fuel + 1, checks => do
    match ← token (nested fuel) fuel checks with
    | .redirection d sign => do
      let r ← redirection (nested fuel) fuel d sign
      return r :: (← redirections fuel {})
    | t => do
      pushBack t
      return []

/-- A compound command with the redirections after it. -/
def wrap : Nat → Nat → Command → Reader Command
  | 0, _, _ => fail "too deep"
  | fuel + 1, line, c => do
    match ← redirections fuel .here with
    | [] => return c
    | rs => return .redirected line c rs

/-- A conditional, after `if` or `elif`. -/
def conditional : Nat → Reader Command
  | 0 => fail "too deep"
  | fuel + 1 => do
    let condition ← list fuel .body
    expectKeyword (nested fuel) fuel {} "then"
    let body ← list fuel .body
    match ← token (nested fuel) fuel {} with
    | .keyword "elif" => return .conditional condition body (← conditional fuel)
    | .keyword "else" => do
      let otherwise ← list fuel .body
      expectKeyword (nested fuel) fuel {} "fi"
      return .conditional condition body otherwise
    | t => do
      pushBack t
      expectKeyword (nested fuel) fuel {} "fi"
      return .conditional condition body (.sequence [])

/-- A loop, after `while` or `until`. -/
def loop : Nat → Bool → Reader Command
  | 0, _ => fail "too deep"
  | fuel + 1, until_ => do
    let condition ← list fuel .body
    expectKeyword (nested fuel) fuel {} "do"
    let body ← list fuel .body
    expectKeyword (nested fuel) fuel {} "done"
    return .loop until_ condition body

/-- Words up to the end of the line or a semicolon. -/
def wordsHere : Nat → Reader (List Word)
  | 0 => fail "too deep"
  | fuel + 1 => do
    match ← token (nested fuel) fuel {} with
    | .word w => return wordWithHomes w :: (← wordsHere fuel)
    | .newline | .operator ";" => return []
    | t => unexpected t

/-- A loop over words, after `for`. -/
def each : Nat → Nat → Reader Command
  | 0, _ => fail "too deep"
  | fuel + 1, line => do
    let name := match ← token (nested fuel) fuel {} with
      | .word w => (bare? w).getD ""
      | _ => ""
    if !isName name then fail "Bad for loop variable"
    let words ← match ← token (nested fuel) fuel .all with
      | .keyword "in" => do pure (some (← wordsHere fuel))
      | .operator ";" => pure none
      | t => do
        pushBack t
        pure none
    expectKeyword (nested fuel) fuel .all "do"
    let body ← list fuel .body
    expectKeyword (nested fuel) fuel {} "done"
    return .each line name words body

/-- A selection, after `case`. -/
def select : Nat → Nat → Reader Command
  | 0, _ => fail "too deep"
  | fuel + 1, line => do
    match ← token (nested fuel) fuel {} with
    | .word w => do
      expectKeyword (nested fuel) fuel .all "in"
      return .select line (withHomes false true w) (← branches fuel)
    | t => expected t "word"

/-- The patterns of a branch, the first of which has been read, up to the parenthesis. -/
def patterns : Nat → Reader (List Word)
  | 0 => fail "too deep"
  | fuel + 1 => do
    let w := withHomes false true (← get).lastWord
    match ← token (nested fuel) fuel {} with
    | .operator "|" => do
      -- The word that is read here is the next pattern.
      discard (token (nested fuel) fuel {})
      return w :: (← patterns fuel)
    | .operator ")" => return [w]
    | t => expected t "\")\""

/-- The branches of a selection, with the word that ends it. -/
def branches : Nat → Reader (List (List Word × Command))
  | 0 => fail "too deep"
  | fuel + 1 => do
    match ← token (nested fuel) fuel .branch with
    | .keyword "esac" => return []
    | first => do
      if let .operator "(" := first then discard (token (nested fuel) fuel {})
      let ps ← patterns fuel
      let body ← list fuel .optional
      match ← token (nested fuel) fuel .branch with
      | .keyword "esac" => return [(ps, body)]
      | .operator ";;" => return (ps, body) :: (← branches fuel)
      | t => expected t "\";;\""

end

/-- The commands of the next line that has any, if there is one. -/
def nextFrom : Nat → Nat → Reader (Option Command)
  | 0, _ => return none
  | lines + 1, fuel => do
    modify fun s => { s with pushed := none, announced := [] }
    match ← listItems fuel .line false with
    | [] => if (← rest).isEmpty then return none else nextFrom lines fuel
    | cs => return some (.sequence cs)

/-- The commands of the next line that has any, if there is one. -/
def next : Reader (Option Command) := do
  let s ← get
  let texts := s.aliases.flatMap (fun a => a.2.toList)
  nextFrom (s.rest.length + 1) (depthFor (s.rest ++ texts))

end BlockFlow.Shell.Reader
