import BlockFlow.Shell.Expansion
import BlockFlow.Shell.Opening

/-! # Redirections

A redirection lets a descriptor lead to a file, to another descriptor's channel, to a text of the
script, or to nothing.  The words of all redirections of a command are expanded before the first
one is carried out, but a text of the script only when its turn comes. -/

namespace BlockFlow.Shell.Redirect

/-- What is wrong if a file cannot be opened for reading. -/
def cannotOpen (name : Bytes) (e : FileError) : String :=
  "cannot open " ++ textOf name ++ ": " ++
    if e = .notFound || e = .notADirectory then "No such file" else e.reason

/-- What is wrong if a file cannot be opened for writing. -/
def cannotCreate (name : Bytes) (e : FileError) : String :=
  "cannot create " ++ textOf name ++ ": " ++
    if e = .notFound || e = .notADirectory then "Directory nonexistent" else e.reason

/-- The channel of the descriptor with this number; `none` stands for no channel at all. -/
def duplicate (name : Bytes) : Sh (Except String (Option Channel)) := do
  if name = [0x2D] then return .ok none
  match name with
  | [d] =>
    let n := d.toNat - 0x30
    match (← get).channels.get? n with
    | some c => return .ok (some c)
    | none => return .error (toString n ++ ": Bad file descriptor")
  | _ => return .error "Bad fd number"

/-- Whether a word can stand for a descriptor. -/
def isDescriptor (name : Bytes) : Bool :=
  match name with
  | [d] => d = 0x2D || (0x30 ≤ d && d ≤ 0x39)
  | _ => false

/-- A channel that gives a text. -/
def textChannel (text : Bytes) : Sh Channel :=
  Sh.onSystem fun sys =>
    let (id, sys) := sys.addPipe { data := ⟨text.toArray⟩ }
    (.source id, sys)

/-- A channel that gives a here-document; `none`, if it cannot be expanded, which has been said
then. -/
def documentChannel (run : Expansion.Runner) (n : Nat) : Sh (Option Channel) := do
  let word := ((← get).documents[n]?).getD []
  match ← Sh.outcome (Expansion.value run word) with
  | .ok text => return some (← textChannel text)
  | .error .fault => return none
  | .error e => throw e

/-- What a descriptor is to lead to.  If something is wrong that has not been said, the error says
what. -/
def target (run : Expansion.Runner) (kind : RedirectionKind) (name : Bytes) :
    Sh (Except (Option String) (Option Channel)) := do
  let opened (cannot : Bytes → FileError → String) (r : Except FileError Channel) :
      Except (Option String) (Option Channel) := (r.map some).mapError (fun e => cannot name e)
  match kind with
  | .duplicate => return (← duplicate name).mapError some
  | .here n => do
    match ← documentChannel run n with
    | some c => return .ok (some c)
    | none => return .error none
  | .input => return opened cannotOpen (← open_ { readable := true } name)
  | .output => do
    let fresh := (← get).has "noclobber"
    return opened cannotCreate (← open_ { writable := true, truncates := true, fresh } name)
  | .overwrite => return opened cannotCreate (← open_ { writable := true, truncates := true } name)
  | .append => return opened cannotCreate (← open_ { writable := true, appends := true } name)
  | .readWrite => return opened cannotCreate (← open_ { readable := true, writable := true } name)

/-- Expands the words of redirections. -/
def expanded (run : Expansion.Runner) : List (Redirection Word) → Sh (List (Redirection Bytes))
  | [] => return []
  | r :: rs => do
    let name ← Expansion.value run r.target
    if r.kind = .duplicate && !isDescriptor name then
      modify fun s => { s with line := s.reached }
      refuse 2 "Syntax error: Bad fd number"
    return ⟨r.descriptor, r.kind, name⟩ :: (← expanded run rs)

/-- Carries redirections out, one after the other; whether all of them succeed. -/
def all (run : Expansion.Runner) : List (Redirection Bytes) → Sh Bool
  | [] => return true
  | r :: rs => do
    match ← target run r.kind r.target with
    | .error what => do
      what.forM complain
      return false
    | .ok (some c) => do
      setChannel r.descriptor c
      all run rs
    | .ok none => do
      modify fun s => { s with channels := s.channels.erase r.descriptor }
      all run rs

end BlockFlow.Shell.Redirect
