import BlockFlow.Shell.Utilities.Directories

/-! # Removing files

`rm` removes files, and with a switch directories with all that is in them.  It asks before it
removes something, if that is wanted. -/

namespace BlockFlow.Shell.Utilities

/-- When `rm` asks. -/
inductive Asking where
  | never
  /-- Once, before it removes much. -/
  | once
  | always
  deriving DecidableEq, Inhabited, Repr

/-- How `rm` removes. -/
structure Removing where
  asking : Option Asking := none
  /-- Whether it does not matter if there is nothing to remove. -/
  force : Bool := false
  /-- Whether directories are removed with all that is in them. -/
  recursive : Bool := false
  /-- Whether empty directories are removed. -/
  emptyOnes : Bool := false
  verbose : Bool := false
  /-- Whether the root is spared. -/
  sparesRoot : Bool := true

/-- What has become of something that was to be removed. -/
inductive Removal where
  | done
  /-- It was not wanted. -/
  | declined
  | failed
  deriving DecidableEq, Inhabited, Repr

namespace Removing

/-- Says that something cannot be removed. -/
def refuse (f : Bytes) (e : FileError) : Sh Removal := do
  report ("cannot remove " ++ inQuotes f ++ ": " ++ e.reason)
  return .failed

/-- Whether somebody is content with something, who is asked if that is wanted. -/
def mayDo (r : Removing) (what : String) (f : Bytes) : Sh Bool :=
  if r.asking = some .always then asks (what ++ " " ++ inQuotes f) else return true

/-- What an entry is called in questions. -/
def kindOf : Entry → String
  | .directory => "directory"
  | .link _ => "symbolic link"
  | .file content => if content.size = 0 then "regular empty file" else "regular file"

/-- Removes a file, a link or an empty directory. -/
def excise (r : Removing) (f : Bytes) (e : Entry) : Sh Removal := do
  let p ← absolute f
  let isDirectory := e = .directory
  match ← changeFiles (fun files => if isDirectory then files.rmdir p else files.unlink p) with
  | .ok () => do
    say r.verbose ((if isDirectory then "removed directory " else "removed ") ++ inQuotes f)
    return .done
  | .error e =>
    let l := ((← files).walkToName p).toOption.getD []
    let hidden := e = .directoryNotEmpty && !(← files).permits .read l
    if r.force && (e = .notFound || e = .notADirectory) then return .done
    else refuse f (if hidden then .permissionDenied else e)

/-- What is said about something in questions, if it cannot be written to. -/
def protection (l : Location) : Sh String := do
  return if (← files).permits .write l then "" else "write-protected "

/-- Removes what stands at a location, unless somebody who is asked does not want that. -/
def one (r : Removing) (f : Bytes) (l : Location) (e : Entry) : Sh Removal := do
  let what := "remove " ++ (← protection l) ++ kindOf e
  if ← r.mayDo what f then r.excise f e else return .declined

/-- Removes a directory with what is in it, through at most so many levels. -/
def tree (r : Removing) : Nat → Bytes → Location → Sh Removal
  | 0, _, _ => return .failed
  | levels + 1, f, l => do
    let files ← files
    let inside := files.below l
    let readable := files.permits .read l
    if inside.isEmpty && readable then r.one f l .directory
    else if !(← r.mayDo ("descend into " ++ (← protection l) ++ "directory") f) then
      return .declined
    else if !readable then r.one f l .directory
    else
      let entryAt (m : Location) : Entry := (files.get? m).getD .directory
      let isDirectory (m : Location) : Bool := entryAt m = .directory
      let ordered := inside.filter (fun m => !isDirectory m) ++ inside.filter isDirectory
      let results ← ordered.mapM fun m => do
        let name := below f (bytesOf (m.getLastD ""))
        if isDirectory m then r.tree levels name m else r.one name m (entryAt m)
      if results.contains .failed then return .failed
      else if results.contains .declined then return .declined
      else r.one f l .directory

/-- Removes a directory that is an operand. -/
def directory (r : Removing) (f : Bytes) (l : Location) : Sh Removal := do
  let files ← files
  let isEmpty := (files.below l).isEmpty && files.permits .read l
  if !r.recursive && !(r.emptyOnes && isEmpty) then
    refuse f (if r.emptyOnes then .directoryNotEmpty else .isADirectory)
  else
    let last := ((Path.pieces (textOf f)).filter (· ≠ "")).getLast?
    if last = some "." || last = some ".." then
      report ("refusing to remove '.' or '..' directory: skipping " ++ inQuotes f)
      return .failed
    else if r.recursive && r.sparesRoot && l = [] then
      report ("it is dangerous to operate recursively on " ++ inQuotes f ++
        if f = [0x2F] then "" else " (same as '/')")
      report "use --no-preserve-root to override this failsafe"
      return .failed
    else r.tree (files.entries.size + 1) f l

/-- Removes an operand. -/
def operand (r : Removing) (f : Bytes) : Sh Removal := do
  let p ← absolute f
  let files ← files
  match files.walk false p with
  | .error e => missing f e
  | .ok l =>
    match files.get? l with
    | some .directory => r.directory f l
    | some e => r.one f l e
    | none =>
      match ← look false f with
      | .ok .directory => refuse f .isADirectory
      | .ok _ => refuse f .permissionDenied
      | .error e => missing f e
where
  /-- There is nothing to remove. -/
  missing (f : Bytes) (e : FileError) : Sh Removal := do
    if r.force && (e = .notFound || e = .notADirectory) then return .done else refuse f e

/-- Takes what a switch says. -/
def switched (r : Removing) (g : Given) : Sh Removing := do
  match g.name, g.value with
  | "force", _ => return { r with force := true, asking := some .never }
  | "i", _ => return { r with force := false, asking := some .always }
  | "I", _ => return { r with force := false, asking := some .once }
  | "interactive", value => do
    match ← (value.mapM (choice choices "--interactive")) with
    | some "never" => return { r with asking := some .never }
    | some "once" => return { r with force := false, asking := some .once }
    | _ => return { r with force := false, asking := some .always }
  | "recursive", _ => return { r with recursive := true }
  | "dir", _ => return { r with emptyOnes := true }
  | "verbose", _ => return { r with verbose := true }
  | "no-preserve-root", _ => return { r with sparesRoot := false }
  | "preserve-root", some value => do
    if value = bytesOf "all" then return { r with sparesRoot := true }
    else
      report ("unrecognized --preserve-root argument: " ++ inQuotes value)
      quit 1
  | "preserve-root", none => return { r with sparesRoot := true }
  | _, _ => return r
where
  /-- When to ask, in words. -/
  choices : List (List String) := [["never", "no", "none"], ["once"], ["always", "yes"]]

/-- Whether the removal of so many operands is wanted, if that is asked once. -/
def mayBegin (r : Removing) (count : Nat) : Sh Bool := do
  if r.asking = some .once && (r.recursive || 3 < count) then
    let arguments := " argument" ++ if count = 1 then "" else "s"
    asks ("remove " ++ toString count ++ arguments ++ if r.recursive then " recursively" else "")
  else return true

end Removing

/-- The hint on operands that look like switches. -/
def hintAtNames (args : List Bytes) : Sh Unit :=
  args.forM fun a => do
    if a.head? = some 0x2D && 1 < a.length && (← look false a).toBool then
      writeText 2 ("Try '" ++ (← programName) ++ " ./" ++ quoted a ++ "' to remove the file " ++
        inQuotes a ++ ".\n")

/-- Removes files, and with a switch directories. -/
def rm : Utility := fun args => do
  let known : List Switch := [
    .named "force" "f", .named "interactive" "" .perhaps, .named "one-file-system",
    .named "no-preserve-root", .named "preserve-root" "" .perhaps,
    .named "-presume-input-tty", .named "recursive" "rR", .named "dir" "d", .named "verbose" "v",
    .lettered 'i', .lettered 'I']
  let check (g : Given) : Sh Unit := discard (Removing.switched {} g)
  withChecked 1 known (hintAtNames args) check (fun a => do
    if a.has "no-preserve-root" && !args.contains (bytesOf "--no-preserve-root") then
      report "you may not abbreviate the --no-preserve-root option"
      quit 1
    let r ← a.given.foldlM Removing.switched {}
    if a.operands.isEmpty then
      if r.force then return 0 else misuse "missing operand"
    else if ← r.mayBegin a.operands.length then
      let results ← a.operands.mapM r.operand
      return if results.contains .failed then 1 else 0
    else return 0) args

end BlockFlow.Shell.Utilities
