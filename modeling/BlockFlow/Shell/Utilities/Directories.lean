import BlockFlow.Files.Permissions
import BlockFlow.Shell.Utilities.Basic

/-! # Utilities that make and remove directories

`mkdir` and `rmdir` work on directories, with those above them if that is wanted; `touch` makes
empty files. -/

namespace BlockFlow.Shell.Utilities

/-- Says what is being done, after the name of the program. -/
def announce (wanted : Bool) (what : String) : Sh Unit := do
  say wanted ((← programName) ++ ": " ++ what)

/-! ## Making -/

/-- How directories are made. -/
structure Making where
  /-- The permissions of a directory. -/
  mode : Nat
  /-- The permissions of the directories above it. -/
  modeAbove : Nat
  verbose : Bool := false

/-- Makes a directory in which some bits of the one above it are found again. -/
def makeWith (mode : Nat) (d : Bytes) : Sh (Except FileError Unit) := do
  let p ← absolute d
  if (← look false d).toBool then return .error .alreadyExists
  else
    changeFiles fun files => do
      let files ← files.mkdir p
      let l ← files.walkToName p
      return files.withMode l (mode ||| (files.mode l.dropLast &&& 0o2000))

/-- The directories above an operand, as far as they are named in it, each with its last name. -/
def above : Nat → Bytes → Bytes → List (Bytes × Bytes)
  | 0, _, _ => []
  | fuel + 1, before, rest =>
    let slashes := rest.takeWhile (· = 0x2F)
    let name := (rest.drop slashes.length).takeWhile (· ≠ 0x2F)
    let after := rest.drop (slashes.length + name.length)
    let d := before ++ slashes ++ name
    if after.all (· = 0x2F) then [] else (d, name) :: above fuel d after

/-- Refuses to make a directory. -/
def Making.refuse (d : Bytes) (e : FileError) : Sh Nat :=
  fail ("cannot create directory " ++ cited d ++ ": " ++ e.reason)

/-- Makes a directory. -/
def Making.one (m : Making) (parents : Bool) (d : Bytes) : Sh Nat := do
  match ← makeWith m.mode d with
  | .ok () => do
    announce m.verbose ("created directory " ++ inQuotes d)
    return 0
  | .error e => do
    let isThere := (← look true d).toOption = some .directory
    if parents && e ≠ .notFound && isThere then return 0 else Making.refuse d e

/-- Makes those of some directories that are missing; the status says whether that was possible. -/
def Making.all (m : Making) : List (Bytes × Bytes) → Sh Nat
  | [] => return 0
  | (d, name) :: ds => do
    let made ← if name = [0x2E] || name = [0x2E, 0x2E] then pure (.error .alreadyExists)
      else makeWith m.modeAbove d
    if made.toBool then announce m.verbose ("created directory " ++ inQuotes d)
    match ← look true d with
    | .ok .directory => m.all ds
    | .ok _ => Making.refuse d .notADirectory
    | .error e =>
      Making.refuse d (match made with
        | .error first => if e = .notFound then first else e
        | .ok () => e)

/-- The permissions of a new directory that is made with permissions less those for others to write,
if there are special ones, and is given the rest if any of those that have been decided on are
missing then. -/
def modeAfter (mode decided : Nat) : Nat :=
  let special := (decided &&& Permissions.identity) ||| (mode &&& 0o1000) ≠ 0
  let made := (if special then Permissions.without mode 0o022 else mode) &&& 0o1777
  let checked := special || mode &&& decided &&& Permissions.ordinary ≠ 0
  if checked && (made ^^^ mode) &&& decided ≠ 0 then mode ||| Permissions.without made decided
  else made

/-- The permissions that a text means for a new directory. -/
def newMode (text : Bytes) : Sh Nat := do
  match Permissions.Change.parse? (textOf text).toList with
  | some changes =>
    let change := Permissions.Change.apply (← get).umask
    let (mode, decided) := changes.foldl change (Permissions.ordinary, 0)
    return modeAfter mode decided
  | none => do
    report ("invalid mode " ++ cited text)
    quit 1

/-- Makes directories. -/
def mkdir : Utility :=
  let known : List Switch := [
    .named "context" "Z" .perhaps, .named "mode" "m" .always, .named "parents" "p",
    .named "verbose" "v"]
  let check (g : Given) : Sh Unit := do
    if g.name = "context" && g.value.isSome then
      report "warning: ignoring --context; it requires an SELinux/SMACK-enabled kernel"
  withChecked 1 known (return) check fun a => do
    if a.operands.isEmpty then misuse "missing operand"
    let s ← get
    let mode ← match a.value? "mode" with
      | some text => newMode text
      | none => pure (permittedMode s Permissions.ordinary)
    let m : Making := {
      mode
      modeAbove := permittedMode s Permissions.ordinary ||| 0o300
      verbose := a.has "verbose" }
    onEach (fun d => do
      let parents := a.has "parents"
      let n ← if parents then m.all (above d.length [] d) else pure 0
      if n = 0 then m.one parents d else return n) a.operands

/-- Makes empty files where there are none. -/
def touch : Utility :=
  let known : List Switch := [
    .named "time" "" .always, .named "no-create" "c", .named "date" "d" .always,
    .named "reference" "r" .always, .named "no-dereference" "h", .lettered 'a', .lettered 'f',
    .lettered 'm', .lettered 't' .always]
  withSwitches known fun a => do
    if a.operands.isEmpty then misuse "missing file operand"
    onEach (fun f => do
      if (← look true f).toBool || a.has "no-create" then return 0
      else
        match ← open_ { writable := true } f with
        | .ok _ => return 0
        | .error .notADirectory =>
          fail ("setting times of " ++ inQuotes f ++ ": " ++ FileError.notADirectory.reason)
        | .error e => fail ("cannot touch " ++ inQuotes f ++ ": " ++ e.reason)) a.operands

/-! ## Removing -/

/-- How `rmdir` removes. -/
structure Emptying where
  verbose : Bool := false
  /-- Whether directories with something in them stay without a message. -/
  lenient : Bool := false

/-- Removes an empty directory; `what` is said to have failed otherwise. -/
def Emptying.one (e : Emptying) (what : String) (d : Bytes) : Sh (Except Nat Unit) := do
  announce e.verbose ("removing directory, " ++ inQuotes d)
  let p ← absolute d
  let stripped := bytesOf (FileTree.withoutSlashes (textOf d))
  let isLink := (← look false stripped).toOption = some .link
  let isDot := (Path.pieces (textOf stripped)).getLast? = some "."
  let isThere := (← look true d).toOption = some .directory
  let because (reason : String) : Sh (Except Nat Unit) := do
    return .error (← fail (what ++ inQuotes d ++ ": " ++ reason))
  if isThere && isLink && stripped ≠ d then because "Symbolic link not followed"
  else if isThere && isDot then because "Invalid argument"
  else
    match ← changeFiles (fun files => files.rmdir p) with
    | .ok () => return .ok ()
    | .error .directoryNotEmpty =>
      if e.lenient then return .error 0 else because FileError.directoryNotEmpty.reason
    | .error err => because err.reason

/-- Removes directories as long as they are empty. -/
def Emptying.all (e : Emptying) : List Bytes → Sh Nat
  | [] => return 0
  | d :: ds => do
    match ← e.one "failed to remove directory " d with
    | .ok () => e.all ds
    | .error n => return n

/-- Removes empty directories. -/
def rmdir : Utility :=
  let known : List Switch := [
    .named "ignore-fail-on-non-empty", ⟨"parents", ['p'], .nothing, ["path", "parents"]⟩,
    .named "verbose" "v"]
  withSwitches known fun a => do
    if a.operands.isEmpty then misuse "missing operand"
    let e : Emptying :=
      { verbose := a.has "verbose", lenient := a.has "ignore-fail-on-non-empty" }
    onEach (fun d => do
      match ← e.one "failed to remove " d with
      | .error n => return n
      | .ok () =>
        if a.has "parents" then e.all ((above d.length [] d).map (·.1)).reverse else return 0)
      a.operands

end BlockFlow.Shell.Utilities
