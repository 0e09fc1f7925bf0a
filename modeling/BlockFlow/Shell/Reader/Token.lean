import BlockFlow.Shell.Reader.Word

/-! # Reading tokens

A script is a row of words, signs and newlines.  Whether a word is a keyword or an alias depends on
where it stands, so that `token` is told what to look for.  After a newline that counts come the
here-documents that were announced on the line before. -/

namespace BlockFlow.Shell.Reader

/-! ## Names of tokens -/

/-- The words that have a meaning where a command may begin. -/
def keywords : List String :=
  ["!", "case", "do", "done", "elif", "else", "esac", "fi", "for", "if", "in", "then", "until",
    "while", "\x7b", "\x7d"]

/-- How a token is called. -/
def nameOf : Token → String
  | .endOfText => "end of file"
  | .newline => "newline"
  | .operator s | .keyword s => "\"" ++ s ++ "\""
  | .redirection .. => "redirection"
  | .word _ => "word"

/-- Refuses a token. -/
def unexpected {α : Type} (t : Token) : Reader α := fail (nameOf t ++ " unexpected")

/-- Refuses a token where another one must stand. -/
def expected {α : Type} (t : Token) (other : String) : Reader α :=
  fail (nameOf t ++ " unexpected (expecting " ++ other ++ ")")

/-- Whether a token ends a list of commands. -/
def endsList : Token → Bool
  | .endOfText => true
  | .operator s => s = ")" || s = ";;"
  | .keyword k =>
    ["do", "done", "elif", "else", "esac", "fi", "then", "\x7d"].contains k
  | _ => false

/-! ## Here-documents -/

variable (script : Bool → Reader Command)

/-- The lines up to the one that is just `mark`, which goes as well. -/
def literalLines (mark : List Char) (strips : Bool) : Nat → List Char → Reader (List Char)
  | 0, before => return before.reverse
  | fuel + 1, before => do
    if strips then drop ((← rest).takeWhile (· = '\t')).length
    let cs ← rest
    match afterMark? mark cs, cs with
    | some after, _ => do
      drop (cs.length - after.length)
      return before.reverse
    | none, [] => return before.reverse
    | none, cs => do
      let line := cs.takeWhile (· ≠ '\n') ++ ['\n']
      -- The last line may come without a newline.
      let line := line.take cs.length
      drop line.length
      literalLines mark strips fuel (line.reverse ++ before)

/-- The text of a here-document, which begins here. -/
def document (fuel : Nat) (a : Announced) : Reader Word := do
  if a.literal then
    return [.text (String.ofList (← literalLines a.mark a.strips fuel [])) true]
  else
    let purpose := Purpose.document (some a.mark) a.strips
    let first ← lineStart purpose
    let w ← parts script purpose fuel .document [.text (first.getD "") true]
    modify fun s =>
      match s.beyond with
      | some after => { s with rest := after, beyond := none }
      | none => s
    return w

/-- Reads the here-documents that have been announced. -/
def readDocuments (fuel : Nat) : Reader Unit := do
  let announced := (← get).announced
  modify fun s => { s with announced := [] }
  announced.forM fun a => do
    let w ← document script fuel a
    modify fun s => { s with documents := s.documents.setIfInBounds a.number w }

/-! ## Tokens -/

/-- The sign of a redirection. -/
def redirectionSign : Reader String := do
  if ← takeIf '<' then
    if ← takeIf '<' then return if ← takeIf '-' then "<<-" else "<<"
    else if ← takeIf '&' then return "<&"
    else if ← takeIf '>' then return "<>"
    else return "<"
  else
    drop 1
    if ← takeIf '>' then return ">>"
    else if ← takeIf '|' then return ">|"
    else if ← takeIf '&' then return ">&"
    else return ">"

/-- The descriptor that a redirection is given by the word before it, if that word does so. -/
def descriptor? : Word → Option (Option Nat)
  | [] => some none
  | [.text s false] =>
    match s.toList with
    | [c] => if c.isDigit then some (some (c.toNat - '0'.toNat)) else none
    | _ => none
  | _ => none

/-- The next token, as it stands in the script. -/
def scan (purpose : Purpose) (fuel : Nat) : Reader Token := do
  skipBlanks fuel
  let sign (one : Char) : Reader Token := do
    drop 1
    return .operator (String.ofList (if ← takeIf one then [one, one] else [one]))
  match ← peek with
  | none => return .endOfText
  | some '\n' => do
    drop 1
    return .newline
  | some '&' => sign '&'
  | some '|' => sign '|'
  | some ';' => sign ';'
  | some '(' => do
    drop 1
    return .operator "("
  | some ')' => do
    drop 1
    return .operator ")"
  | _ => do
    let w ← parts script purpose fuel .word []
    -- A digit right before the sign of a redirection belongs to it.
    match descriptor? w, (← rest).head? with
    | some d, some c =>
      if c = '<' || c = '>' then return .redirection d (← redirectionSign)
    | _, _ => pure ()
    modify fun s => { s with lastWord := w }
    return .word w

/-- What is looked for when a token is read. -/
structure Checks where
  /-- Whether newlines are skipped. -/
  newlines : Bool := false
  keywords : Bool := false
  aliases : Bool := false

/-- What is looked for where a command may begin on a later line. -/
def Checks.all : Checks := ⟨true, true, true⟩

/-- Gives a token back, so that it is read again. -/
def pushBack (t : Token) : Reader Unit := modify fun s => { s with pushed := some t }

/-- Puts the text of an alias in the place of the word that has just been read, if that is one.  An
alias is not replaced inside its own text. -/
def replaceAlias (name : String) : Reader Bool := do
  let s ← get
  let length := s.rest.length
  -- Only those count whose text is still being read.
  let replaced := s.replaced.filter (fun r => r.2 ≤ length)
  match s.aliases.find? (fun a => a.1 = name) with
  | none => return false
  | some (_, text) =>
    if replaced.any (fun r => r.1 = name) then return false
    else do
      let goesOn := text.toList.getLast?.any (fun c => c = ' ' || c = '\t')
      set { s with
        rest := text.toList ++ s.rest
        replaced := (name, length) :: replaced
        alsoAlias := if goesOn then length :: s.alsoAlias else s.alsoAlias }
      return true

/-- The next token. -/
def token : Nat → Checks → Reader Token
  | 0, _ => fail "too deep"
  | fuel + 1, checks => do
    let t ← match (← get).pushed with
      | some t => do
        modify fun s => { s with pushed := none }
        pure t
      | none => scan script .command fuel
    let s ← get
    -- After the text of an alias that ends with a blank, one more word may be an alias.
    let ahead := s.alsoAlias.filter (fun n => n ≤ s.rest.length)
    let crossed := ahead.length < s.alsoAlias.length
    set { s with alsoAlias := ahead }
    let aliases := checks.aliases || crossed
    match t with
    | .newline =>
      if checks.newlines then do
        readDocuments script fuel
        token fuel checks
      else return t
    | .word w =>
      match bare? w with
      | none => return t
      | some text =>
        if checks.keywords && keywords.contains text then return .keyword text
        else if !aliases then return t
        else if ← replaceAlias text then token fuel { checks with aliases }
        else return t
    | t => return t

/-- Takes a keyword that must stand here. -/
def expectKeyword (fuel : Nat) (checks : Checks) (k : String) : Reader Unit := do
  match ← token script fuel checks with
  | .keyword text => if text ≠ k then expected (.keyword text) (nameOf (.keyword k))
  | t => expected t (nameOf (.keyword k))

/-- Takes a sign that must stand here. -/
def expectOperator (fuel : Nat) (checks : Checks) (sign : String) : Reader Unit := do
  match ← token script fuel checks with
  | .operator s => if s ≠ sign then expected (.operator s) (nameOf (.operator sign))
  | t => expected t (nameOf (.operator sign))

/-! ## Redirections -/

/-- The text of a word without its quotes, and whether it had any. -/
def plainWord : Word → String × Bool
  | [] => ("", false)
  | .text s q :: ps => let (t, r) := plainWord ps; (s ++ t, q || r)
  | _ :: ps => plainWord ps

/-- The redirection whose sign has just been read. -/
def redirection (fuel : Nat) (descriptor : Option Nat) (sign : String) :
    Reader (Redirection Word) := do
  let reads := sign.toList.head? = some '<'
  let descriptor := descriptor.getD (if reads then 0 else 1)
  if sign = "<<" || sign = "<<-" then
    match ← scan script .mark fuel with
    | .word w => do
      let (mark, literal) := plainWord w
      let document ← announce mark.toList (sign = "<<-") literal
      return ⟨descriptor, .here document, []⟩
    | t => unexpected t
  else
    let kind : RedirectionKind := match sign with
      | "<" => .input
      | "<>" => .readWrite
      | ">" => .output
      | ">|" => .overwrite
      | ">>" => .append
      | _ => .duplicate
    match ← token script fuel {} with
    | .word w => return ⟨descriptor, kind, withHomes false true w⟩
    | t => unexpected t

end BlockFlow.Shell.Reader
