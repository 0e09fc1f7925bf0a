import BlockFlow.Shell.Utilities.Basic

/-! # Sources and targets

Files are copied, moved or linked from sources to a target.  A target that is a directory stands for
the places in it that have the names of the sources.  What stood at a place before may be kept under
another name, a backup.

* `Transfer.read`     finds sources and target among operands
* `Transfer.place`    is the place that a source goes to
* `Backups.nameOf`    is the name that something is kept under -/

namespace BlockFlow.Shell.Utilities

/-- The names in a path, those of the directories themselves and of those above them included. -/
def namesOf (f : Bytes) : List String := (Path.pieces (textOf f)).filter (· ≠ "")

/-- The last name of an operand. -/
def lastName (operand : Bytes) : Bytes :=
  if operand.all (· = 0x2F) then operand.take 1 else bytesOf ((namesOf operand).getLastD "")

/-- An operand without the slashes at its end. -/
def withoutSlashes (operand : Bytes) : Bytes :=
  match operand.reverse.dropWhile (· = 0x2F) with
  | [] => operand.take 1
  | bs => bs.reverse

/-- Whether a directory stands at an operand. -/
def isDirectory (operand : Bytes) : Sh Bool := do
  return (← look true operand).toOption = some .directory

/-- Sources and where they go. -/
structure Transfer where
  sources : List Bytes
  target : Bytes
  /-- Whether the target is a directory that the sources go into. -/
  into : Bool
  /-- Whether there is nothing at the target. -/
  absent : Bool := false

namespace Transfer

/-- The place that a source goes to. -/
def place (t : Transfer) (source : Bytes) : Bytes :=
  let name := lastName source
  if t.into then below t.target (if name = [0x2E, 0x2E] then [0x2E] else name) else t.target

/-- Ends the program because something is wrong with the target. -/
def failAt {α : Type} (what : String) (target : Bytes) (e : FileError) : Sh α := do
  report (what ++ inQuotes target ++ ": " ++ e.reason)
  quit 1

/-- The sources and the target of operands; switches may name the target, or keep it from being a
directory. -/
def read (a : Arguments) : Sh Transfer := do
  let named := a.value? "target-directory"
  let single := a.has "no-target-directory"
  match named, a.operands with
  | _, [] => misuse "missing file operand"
  | none, [f] => misuse ("missing destination file operand after " ++ inQuotes f)
  | some d, sources =>
    if single then
      report "cannot combine --target-directory (-t) and --no-target-directory (-T)"
      quit 1
    match ← look true d with
    | .ok .directory => return { sources, target := d, into := true }
    | .ok _ => failAt "target directory " d .notADirectory
    | .error e => failAt "target directory " d e
  | none, operands => do
    let target := operands.getLastD []
    let sources := operands.dropLast
    let several := 1 < sources.length
    if single && several then misuse ("extra operand " ++ inQuotes (operands.getD 2 []))
    match ← look true target with
    | .ok .directory => return { sources, target, into := !single }
    | .ok _ =>
      if several then failAt "target " target .notADirectory
      return { sources, target, into := false }
    | .error e =>
      if several then failAt "target " target e
      return { sources, target, into := false, absent := e = .notFound }

end Transfer

/-! ## Backups -/

/-- How backups are named. -/
inductive BackupKind where
  | none
  | simple
  /-- With numbers if there are some with numbers already. -/
  | existing
  | numbered
  deriving DecidableEq, Inhabited, Repr

/-- Which backups are made. -/
structure Backups where
  kind : BackupKind := .none
  /-- The end of the name of a simple backup. -/
  suffix : Bytes := [0x7E]

namespace Backups

/-- Words for the ways to name backups. -/
def kinds : List (List String × BackupKind) := [
  (["none", "off"], .none), (["simple", "never"], .simple), (["existing", "nil"], .existing),
  (["numbered", "t"], .numbered)]

/-- The way to name backups that a word means. -/
def kindNamed (switch : String) (word : Option Bytes) : Sh BackupKind := do
  match word with
  | none | some [] => return .existing
  | some w => do
    let first ← choice (kinds.map (·.1)) switch w
    return ((kinds.find? (fun k => k.1.head? = some first)).map (·.2)).getD .none

/-- The backups that switches and variables ask for. -/
def read (a : Arguments) : Sh Backups := do
  let given := a.given.filter (fun g => g.name = "backup")
  let word := (given.filterMap Given.value).getLast?
  let wanted := !given.isEmpty || a.has "suffix"
  let named := word.any (!·.isEmpty)
  let kind ← if !wanted then pure .none
    else if named then kindNamed "backup type" word
    else do kindNamed "$VERSION_CONTROL" (← seen? "VERSION_CONTROL")
  let suffix ← match a.value? "suffix" with
    | some s => pure (some s)
    | none => seen? "SIMPLE_BACKUP_SUFFIX"
  let suffix := suffix.getD []
  return { kind, suffix := if suffix.isEmpty || suffix.contains 0x2F then [0x7E] else suffix }

/-- The number of a backup of something with this name. -/
def numberOf? (name other : Bytes) : Option Nat :=
  let rest := other.drop (name.length + 2)
  let digits := rest.dropLast
  if (name ++ [0x2E, 0x7E]).isPrefixOf other && rest.getLast? = some 0x7E && !digits.isEmpty &&
      digits.all isDecimal && digits.head? ≠ some 0x30 then some (decimal digits)
  else none

/-- The name under which what stands at a place is kept. -/
def nameOf (b : Backups) (place : Bytes) : Sh Bytes := do
  let files ← files
  let others := match files.walkToName (← absolute place) with
    | .ok l => (files.below l.dropLast).filterMap List.getLast?
    | .error _ => []
  let numbers := others.filterMap (fun n => numberOf? (lastName place) (bytesOf n))
  let simple := b.kind = .simple || (b.kind = .existing && numbers.isEmpty)
  if simple then return place ++ b.suffix
  else return place ++ bytesOf (".~" ++ toString (numbers.foldl max 0 + 1) ++ "~")

end Backups

end BlockFlow.Shell.Utilities
