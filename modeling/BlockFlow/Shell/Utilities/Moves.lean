import BlockFlow.Shell.Utilities.Copy

/-! # Moving and linking files

`mv` gives files and directories other names, and `ln` gives files further names or makes symbolic
links. -/

namespace BlockFlow.Shell.Utilities

/-! ## Moves -/

/-- How `mv` moves. -/
structure Moving where
  overwriting : Overwriting := .free
  /-- Whether only what is older is written over. -/
  update : Bool := false
  backups : Backups := {}
  verbose : Bool := false

namespace Moving

/-- Whether what stands at a place may go. -/
def mayReplace (m : Moving) (place : Bytes) (isDirectory : Bool) : Sh Bool := do
  if m.overwriting = .never || (m.update && !isDirectory) then return false
  else if m.overwriting = .asked then asks ("overwrite " ++ inQuotes place)
  else return true

/-- Renames what stands at one place to another. -/
def rename (m : Moving) (source place : Bytes) (backup : Option Bytes) : Sh Nat := do
  let from_ ← absolute source
  let goal ← absolute place
  match ← changeFiles (fun files => files.rename from_ goal) with
  | .ok () => do
    let kept := (backup.map (fun b => " (backup: " ++ inQuotes b ++ ")")).getD ""
    say m.verbose ("renamed " ++ inQuotes source ++ " -> " ++ inQuotes place ++ kept)
    return 0
  | .error e =>
    fail ("cannot move " ++ inQuotes source ++ " to " ++ inQuotes place ++ ": " ++ e.reason)

/-- Moves what stands at one place to another. -/
def one (m : Moving) (source place : Bytes) : Sh Nat := do
  let fs ← files
  let l ← nameAt? place
  match ← Seen.at? false source with
  | .error e => fail ("cannot stat " ++ inQuotes source ++ ": " ++ e.reason)
  | .ok src => do
    let found ← Seen.at? false place
    let old := found.toOption
    let failed := match found with
      | .ok _ | .error .notFound => none
      | .error e => some e
    let one := src.location.isSome && src.location = l
    let within := (src.location.bind (fun s => l.map s.isPrefixOf)).getD false
    match failed, old with
    | some e, _ => fail ("cannot stat " ++ inQuotes place ++ ": " ++ e.reason)
    | none, none =>
      if src.isDirectory && within then
        fail ("cannot move " ++ inQuotes source ++ " to a subdirectory of itself, " ++
          inQuotes place)
      else m.rename source place none
    | none, some old =>
      if one then
        fail (inQuotes source ++ " and " ++ inQuotes place ++ " are the same file")
      else if !(← m.mayReplace place src.isDirectory) then return 0
      else if src.isDirectory && within then
        fail ("cannot move " ++ inQuotes source ++ " to a subdirectory of itself, " ++
          inQuotes place)
      else if m.backups.kind ≠ .none then
        let backup ← m.backups.nameOf place
        discard (m.rename place backup none)
        m.rename source place (some backup)
      else if src.isDirectory && !old.isDirectory then
        fail ("cannot overwrite non-directory " ++ inQuotes place ++ " with directory " ++
          inQuotes source)
      else if !src.isDirectory && old.isDirectory then
        fail ("cannot overwrite directory " ++ inQuotes place ++ " with non-directory")
      else if src.isSame fs old then
        let p ← absolute source
        discard (changeFiles (fun files => files.unlink p))
        return 0
      else m.rename source place none

/-- Takes what a switch says. -/
def switched (m : Moving) (g : Given) : Moving :=
  match g.name with
  | "force" => { m with overwriting := .free }
  | "interactive" => { m with overwriting := .asked }
  | "no-clobber" => { m with overwriting := .never }
  | "update" => { m with update := true }
  | "verbose" => { m with verbose := true }
  | _ => m

end Moving

/-- Moves files and directories. -/
def mv : Utility :=
  let known : List Switch := [
    .named "backup" "b" .perhaps, .named "context" "Z", .named "force" "f",
    .named "interactive" "i", .named "no-clobber" "n", .named "no-target-directory" "T",
    .named "strip-trailing-slashes", .named "suffix" "S" .always,
    .named "target-directory" "t" .always, .named "update" "u", .named "verbose" "v"]
  withSwitches known fun a => do
    let m := a.given.foldl Moving.switched {}
    let m := { m with backups := ← Backups.read a }
    let t ← Transfer.read a
    onEach (fun source => m.one source (t.place source)) t.sources

/-! ## Links -/

/-- Makes a link to a source. -/
def linkOne (symbolic force verbose : Bool) (source place : Bytes) : Sh Nat := do
  let p ← absolute place
  let kind := if symbolic then "symbolic link " else "hard link "
  let cannot (e : FileError) : Sh Nat :=
    fail ("failed to create " ++ kind ++ inQuotes place ++ ": " ++ e.reason)
  let files ← files
  let l ← nameAt? source
  let entry : Except FileError Entry := if symbolic then .ok (.link (textOf source))
    else match l.bind files.get? with
      | some e => .ok e
      | none => .error FileError.notFound
  match entry with
  | .error e => fail ("failed to access " ++ inQuotes source ++ ": " ++ e.reason)
  | .ok .directory => fail (textOf source ++ ": hard link not allowed for directory")
  | .ok entry => do
    if force then discard (changeFiles (fun files => files.unlink p))
    let make (files : FileTree) (m : Location) : FileTree :=
      if symbolic then files.put m entry else files.link (l.getD []) m entry
    match ← Copying.create place make with
    | .ok () => do
      say verbose (inQuotes place ++ (if symbolic then " -> " else " => ") ++ inQuotes source)
      return 0
    | .error e => cannot e

/-- Makes further names of files, or with a switch symbolic links. -/
def ln : Utility :=
  let known : List Switch := [
    .named "backup" "b" .perhaps, .named "directory" "dF", .named "no-dereference" "n",
    .named "no-target-directory" "T", .named "force" "f", .named "interactive" "i",
    .named "suffix" "S" .always, .named "target-directory" "t" .always, .named "logical" "L",
    .named "physical" "P", .named "relative" "r", .named "symbolic" "s", .named "verbose" "v"]
  withSwitches known fun a => do
    let a := match a.operands with
      | [f] => if a.has "target-directory" then a else { a with operands := [f, [0x2E]] }
      | _ => a
    let t ← Transfer.read a
    onEach (fun source =>
      linkOne (a.has "symbolic") (a.has "force") (a.has "verbose") source (t.place source))
      t.sources

end BlockFlow.Shell.Utilities
