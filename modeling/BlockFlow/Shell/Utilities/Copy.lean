import BlockFlow.Files.Permissions
import BlockFlow.Shell.Utilities.Transfer

/-! # Copying files

`cp` puts copies of files at places, or links to them.  `Copying` holds what the switches say.  What
has been copied so far is remembered: nothing that was just made is written over, a directory is not
copied into itself, and names of one file stay names of one file if that is wanted.

* `Copying.clear`  decides whether something may be put at a place, and makes room for it
* `Copying.copy`   copies what stands at one place to another
* `Copying.all`    copies operands -/

namespace BlockFlow.Shell.Utilities

/-! ## What is wanted -/

/-- Which links are followed. -/
inductive Dereferencing where
  | never
  | operands
  | always
  deriving DecidableEq, Inhabited, Repr

/-- What becomes of files that are there already. -/
inductive Overwriting where
  | free
  | asked
  | never
  deriving DecidableEq, Inhabited, Repr

/-- What is made of files. -/
inductive Product where
  | copies
  | names
  | links
  deriving DecidableEq, Inhabited, Repr

/-- How `cp` copies. -/
structure Copying where
  /-- Which links are followed, if that is said. -/
  dereferencing? : Option Dereferencing := none
  /-- Whether directories are copied with all that is in them. -/
  recursive : Bool := false
  product : Product := .copies
  overwriting : Overwriting := .free
  /-- Whether only what is older is written over. -/
  update : Bool := false
  /-- Whether what stands at a place is removed first. -/
  removes : Bool := false
  /-- Whether it is removed if it cannot be written over. -/
  force : Bool := false
  /-- Whether copies have the content of the sources. -/
  withContent : Bool := true
  /-- Whether copies share the content with the sources. -/
  cloned : Bool := false
  /-- Whether holes are made or kept, if that is said. -/
  sparse : Bool := false
  /-- Whether copies have the permissions of the sources, if that is said. -/
  keepsMode : Option Bool := none
  /-- Whether names of one file stay names of one file. -/
  keepsNames : Bool := false
  keepsContext : Bool := false
  backups : Backups := {}
  /-- Whether the directories above a source are made in the target. -/
  parents : Bool := false
  /-- Whether slashes at the ends of sources do not count. -/
  stripped : Bool := false
  verbose : Bool := false
  /-- Whether a link that leads nowhere is written through. -/
  throughLinks : Bool := false

/-- Which links are followed. -/
def Copying.dereferencing (c : Copying) : Dereferencing :=
  c.dereferencing?.getD (if c.recursive && c.product ≠ .names then .never else .always)

/-! ## What is known and remembered -/

/-- What is known about the file that stands somewhere. -/
structure Seen where
  kind : Kind
  /-- Where it stands, if it is one of the files of the run. -/
  location : Option Location
  mode : Nat
  /-- How many names it has. -/
  names : Nat

namespace Seen

/-- Looks at what stands at an operand. -/
def at? (follow : Bool) (f : Bytes) : Sh (Except FileError Seen) := do
  match ← look follow f with
  | .error e => return .error e
  | .ok kind => do
    let files ← files
    let location := (files.walk follow (← absolute f)).toOption.filter
      (fun l => (files.get? l).isSome)
    return .ok {
      kind
      location
      mode := match location with
        | some l => files.mode l
        | none => if kind = .pipe then 0o600 else 0o666
      names := (location.map (fun l => (files.namesOf l).length)).getD 1 }

/-- Whether a directory was seen. -/
def isDirectory (s : Seen) : Bool := s.kind = .directory

/-- Whether a link was seen. -/
def isLink (s : Seen) : Bool := s.kind = .link

/-- Whether a regular file was seen. -/
def isRegular (s : Seen) : Bool :=
  match s.kind with
  | .file _ => true
  | _ => false

/-- Whether one thing was seen twice. -/
def isSame (files : FileTree) (a b : Seen) : Bool :=
  match a.location, b.location with
  | some l, some m => files.isSame l m
  | _, _ => false

/-- What all names of a file have in common. -/
def key? (files : FileTree) (s : Seen) : Option Location :=
  s.location.map (fun l => ((files.namesOf l).mergeSort (fun a b => !decide (b < a))).headD l)

end Seen

/-- What has been done so far. -/
structure Made where
  /-- The locations of the operands. -/
  sources : List Location := []
  /-- The locations of what was made of operands. -/
  targets : List Location := []
  /-- What was copied, and to which place. -/
  copies : List (Location × Bytes) := []
  /-- Whether a directory turned out to be copied into itself. -/
  intoItself : Bool := false

/-- A computation of `cp`; it may end early with the answer whether it succeeded. -/
abbrev Copier := ExceptT Bool (StateT Made Sh)

namespace Copier

/-- Ends with failure after saying why. -/
def failWith {α : Type} (what : String) : Copier α := do
  report what
  throw false

/-- The answer of a computation. -/
def succeeds (m : Copier Bool) : StateT Made Sh Bool := do
  match ← m.run with
  | .ok b => return b
  | .error b => return b

/-- Remembers where something was copied to; the answer is where it was before. -/
def remember (key : Option Location) (place : Bytes) : Copier (Option Bytes) := do
  match key with
  | none => return none
  | some k =>
    match (← get).copies.find? (fun c => c.1 = k) with
    | some c => return some c.2
    | none => do
      modify fun m => { m with copies := (k, place) :: m.copies }
      return none

end Copier

/-- What is copied where. -/
structure Task where
  source : Bytes
  place : Bytes
  /-- The operand of which the source is a part, and the place that goes to. -/
  whole : Bytes × Bytes
  isOperand : Bool := true
  /-- Whether there are several operands. -/
  several : Bool := false
  /-- Whether it is known that there is nothing at the place. -/
  fresh : Bool := false
  /-- Whether there is no entry at the place, or one that leads nowhere. -/
  absent : Bool := false
  /-- Whether a directory above the place has been made. -/
  begun : Bool := false
  /-- The directories above the source. -/
  above : List Location := []

/-- The location of the name at an operand, whatever it leads to. -/
def nameAt? (f : Bytes) : Sh (Option Location) := do
  return ((← files).walkToName (← absolute f)).toOption

/-- Whether two operands are one name. -/
def isSameName (f g : Bytes) : Sh Bool := do
  let l ← nameAt? f
  return l.isSome && l = (← nameAt? g)

namespace Copying

/-! ## Making room -/

/-- What comes of a source and what stands at the place being one file. -/
inductive Sameness where
  | different
  /-- There is nothing to do. -/
  | settled
  | refused
  deriving DecidableEq

/-- Decides what comes of a source and what stands at the place being one file, if nothing is
followed. -/
def samenessOfNames (c : Copying) (t : Task) (src old : Seen) : Sh Sameness := do
  let files ← files
  let same := src.isSame files old
  let followed (s : Seen) (f : Bytes) : Sh (Option Seen) :=
    if s.isLink then do return (← Seen.at? true f).toOption else return some s
  match ← followed src t.source, ← followed old t.place with
  | some a, some b =>
    if !a.isSame files b then return .different
    else if c.product = .names then return if old.isLink then .different else .settled
    else if !src.isLink && !old.isLink && !same then return .different
    else return .refused
  | _, _ => return .different

/-- Decides what comes of a source and what stands at the place being one file. -/
def sameness (c : Copying) (t : Task) (src old : Seen) : Sh Sameness := do
  let files ← files
  let same := src.isSame files old
  let never := c.dereferencing = .never
  if same && c.product = .names then return .settled
  if never && src.isLink && old.isLink then
    let one ← isSameName t.source t.place
    if one then return .refused
    else return if same && c.backups.kind = .none then .settled else .different
  if !never && !same then return .different
  let (srcName, oldName) ← if never then pure (some src, some old) else do
    pure ((← Seen.at? false t.source).toOption, (← Seen.at? false t.place).toOption)
  match srcName, oldName with
  | some a, some b =>
    let sameLink := a.isSame files b
    if !never && a.isLink && b.isLink && c.removes then return .different
    if c.backups.kind ≠ .none then
      if !same then
        return if !never && a.isLink && !b.isLink then .refused else .different
      else return if ← isSameName t.source t.place then .refused else .different
    if c.removes && (b.isLink ||
        (sameLink && 1 < b.names && !(← isSameName t.source t.place))) then return .different
    if !a.isLink && !b.isLink && !sameLink then return .different
    if !a.isLink && !b.isLink && c.product = .names then return .settled
    if c.product = .links && b.isLink then return .different
    if never then c.samenessOfNames t src old else return .refused
  | _, _ => return .different

/-- Room for a copy. -/
structure Room where
  /-- Whether there is nothing at the place. -/
  isNew : Bool := true
  /-- What stands there. -/
  old : Option Seen := none
  /-- The name under which that is kept. -/
  backup : Option Bytes := none

/-- Keeps what stands at a place under another name. -/
def keep (c : Copying) (t : Task) (src : Seen) : Copier Bytes := do
  let base := lastName t.source
  let name := lastName t.place
  -- The source may itself have the name that the backup would get.
  if c.backups.kind ≠ .numbered && base = name ++ c.backups.suffix then
    let files ← files
    let kept ← Seen.at? true (t.place ++ c.backups.suffix)
    if kept.toOption.any (fun k => src.isSame files k) then
      Copier.failWith ("backing up " ++ inQuotes t.place ++ " might destroy source;  " ++
        inQuotes t.source ++ " not copied")
  let backup ← c.backups.nameOf t.place
  let p ← absolute t.place
  let q ← absolute backup
  match ← changeFiles (fun files => files.rename p q) with
  | .ok () => return backup
  | .error e =>
    if e = .notFound then return backup
    else Copier.failWith ("cannot backup " ++ inQuotes t.place ++ ": " ++ e.reason)

/-- Removes what stands at a place. -/
def remove (c : Copying) (place : Bytes) : Copier Unit := do
  let p ← absolute place
  match ← changeFiles (fun files => files.unlink p) with
  | .ok () => say c.verbose ("removed " ++ inQuotes place)
  | .error e =>
    if e ≠ .notFound then
      Copier.failWith ("cannot remove " ++ inQuotes place ++ ": " ++ e.reason)

/-- Asks whether what stands at a place may be written over. -/
def mayOverwrite (c : Copying) (place : Bytes) (old : Seen) : Sh Bool := do
  let files ← files
  if old.isLink || old.location.all (fun l => files.permits .write l) then
    asks ("overwrite " ++ inQuotes place)
  else
    let mode := old.mode &&& 0o7777
    let digits := [mode / 512, mode / 64 % 8, mode / 8 % 8, mode % 8].map toString
    let letters := String.ofList ((Permissions.letters '-' mode).toList.drop 1)
    let octal := String.join digits
    if c.removes || c.force then
      asks ("replace " ++ inQuotes place ++ ", overriding mode " ++ octal ++ " (" ++ letters ++ ")")
    else asks ("unwritable " ++ inQuotes place ++ " (mode " ++ octal ++ ", " ++ letters ++
      "); try anyway")

/-- Decides whether what stands at the place may be written over, and makes room. -/
def clearOld (c : Copying) (t : Task) (src old : Seen) : Copier Room := do
  let sameness ← if c.overwriting = .never then pure .different else c.sameness t src old
  if sameness = .refused then
    Copier.failWith (inQuotes t.source ++ " and " ++ inQuotes t.place ++ " are the same file")
  if !src.isDirectory then
    if c.update || c.overwriting = .never then throw true
    if c.overwriting = .asked then
      let wanted ← c.mayOverwrite t.place old
      if !wanted then throw true
  if sameness = .settled then throw true
  if src.isDirectory && !old.isDirectory then
    Copier.failWith ("cannot overwrite non-directory " ++ inQuotes t.place ++
      " with directory " ++ inQuotes t.source)
  let name ← nameAt? t.place
  let isMade := (name.map ((← get).targets.contains ·)).getD false
  if !old.isDirectory && t.isOperand && c.backups.kind ≠ .numbered && isMade &&
      old.location = name then
    Copier.failWith ("will not overwrite just-created " ++ inQuotes t.place ++ " with " ++
      inQuotes t.source)
  if !src.isDirectory && old.isDirectory then
    Copier.failWith ("cannot overwrite directory " ++ inQuotes t.place ++
      " with non-directory")
  let base := lastName t.source
  if c.backups.kind ≠ .none && base ≠ [0x2E] && base ≠ [0x2E, 0x2E] && !old.isDirectory then
    return { backup := some (← c.keep t src) }
  else
    let replaced := (c.keepsNames && 1 < old.names) ||
      (c.dereferencing = .never && !src.isRegular)
    if !old.isDirectory && (c.removes || (c.withContent && replaced)) then
      c.remove t.place
      return {}
    else return { isNew := false, old := some old }

/-- Decides whether something may be put at the place, and makes room. -/
def clear (c : Copying) (t : Task) (src : Seen) : Copier Room := do
  if t.fresh then return {}
  let special := src.isDirectory || src.isLink || (!src.isRegular && c.recursive)
  let itself := special || c.product ≠ .copies || c.backups.kind ≠ .none || c.removes
  if !itself && t.absent then return {}
  match ← Seen.at? (!itself) t.place with
  | .ok old => c.clearOld t src old
  | .error .notFound => return {}
  | .error e =>
    if e = .filesystemLoop && c.force then return { isNew := false }
    else Copier.failWith ("cannot stat " ++ inQuotes t.place ++ ": " ++ e.reason)

/-! ## Making copies -/

/-- Says what is copied where. -/
def announce (c : Copying) (t : Task) (backup : Option Bytes) : Sh Unit :=
  let kept := (backup.map (fun b => " (backup: " ++ inQuotes b ++ ")")).getD ""
  say c.verbose (inQuotes t.source ++ " -> " ++ inQuotes t.place ++ kept)

/-- The permissions of something new. -/
def newMode (c : Copying) (usual : Nat) (src : Seen) : Sh Nat := do
  let s ← get
  match c.keepsMode with
  | some true => return src.mode
  | some false => return permittedMode s usual
  | none => return permittedMode s (src.mode &&& Permissions.ordinary)

/-- Changes the permissions of what stands at an operand. -/
def setMode (f : Bytes) (mode : Nat) : Sh Unit := do
  let p ← absolute f
  discard (changeFiles fun files => do return files.withMode (← files.walk true p) mode)

/-- Puts an entry at a place where there is none. -/
def create (place : Bytes) (make : FileTree → Location → FileTree) :
    Sh (Except FileError Unit) := do
  let p ← absolute place
  let isThere := (← look false place).toBool
  changeFiles fun files => do
    let l ← files.walkToName p
    if isThere || (files.get? l).isSome then throw .alreadyExists
    if place.getLast? = some 0x2F then throw .notFound
    return make files l

/-- Makes a symbolic link; what stands at the place is replaced if that is wanted. -/
def symbolicLink (c : Copying) (place target : Bytes) (about : String) : Copier Unit := do
  let p ← absolute place
  if c.force then discard (changeFiles fun files => files.unlink p)
  match ← create place (fun files l => files.put l (.link (textOf target))) with
  | .ok () => return
  | .error e =>
    Copier.failWith ("cannot create symbolic link " ++ inQuotes place ++ about ++ ": " ++
      e.reason)

/-- Makes another name of a file; what stands at the place is replaced if that is wanted, and
perhaps that is said. -/
def anotherName (follow replace verbose : Bool) (source place : Bytes) : Copier Unit := do
  let p ← absolute place
  let failed (e : FileError) : Copier Unit := do
    Copier.failWith ("cannot create hard link " ++ inQuotes place ++ " to " ++
      inQuotes source ++ ": " ++ e.reason)
  let files ← files
  match files.walk follow (← absolute source) with
  | .error e => failed e
  | .ok l =>
    match files.get? l with
    | none => failed .notFound
    | some e => do
      let isThere := (← look false place).toBool
      if isThere && replace then
        discard (changeFiles fun files => files.unlink p)
        say verbose ("removed " ++ inQuotes place)
      match ← create place (fun files m => files.link l m e) with
      | .ok () => return
      | .error e => failed e

/-- Opens the place that a regular file is copied to; the answer tells as well whether the file is
new. -/
def openPlace (c : Copying) (t : Task) (room : Room) : Copier (Channel × Bool) := do
  let cannot (e : FileError) : Copier (Channel × Bool) :=
    Copier.failWith ("cannot create regular file " ++ inQuotes t.place ++ ": " ++ e.reason)
  let opened ← if room.isNew then pure (.error .notFound)
    else open_ { writable := true, truncates := c.withContent } t.place
  let refused := match opened with
    | .ok _ => false
    | .error e => e ≠ .notFound
  if refused && c.force then c.remove t.place
  let existing := if refused && c.force then .error .notFound else opened
  match existing with
  | .ok channel => return (channel, false)
  | .error .notFound => do
    let itself := (← look false t.place).toOption
    if itself = some .link && !c.throughLinks then
      Copier.failWith ("not writing through dangling symlink " ++ inQuotes t.place)
    match ← open_ { writable := true, truncates := true } t.place with
    | .ok channel => return (channel, true)
    | .error e =>
      let slash := t.place.getLast? = some 0x2F
      cannot (if e = .isADirectory && slash then .notADirectory else e)
  | .error e => cannot e

/-- Copies a regular file, or what can be read from something else. -/
def regularFile (c : Copying) (t : Task) (src : Seen) (room : Room) : Copier Unit := do
  match ← open_ { readable := true } t.source with
  | .error e =>
    Copier.failWith ("cannot open " ++ inQuotes t.source ++ " for reading: " ++ e.reason)
  | .ok input => do
    let (output, isNew) ← c.openPlace t room
    if isNew then setMode t.place (← c.newMode 0o666 src)
    if c.withContent then
      if c.cloned then
        Copier.failWith ("failed to clone " ++ inQuotes t.place ++ " from " ++
          inQuotes t.source ++ ": Operation not supported")
      match ← readAll input maxBlocks with
      | .error e =>
        Copier.failWith ("error reading " ++ inQuotes t.source ++ ": " ++ e.reason)
      | .ok bytes =>
        match ← writeChannel bytes output with
        | .ok () => pure ()
        | .error e =>
          Copier.failWith ("error writing " ++ inQuotes t.place ++ ": " ++ e.reason)
    if c.keepsMode = some true && !isNew then setMode t.place src.mode

/-- Makes a symbolic link to a source. -/
def linkTo (c : Copying) (t : Task) : Copier Unit := do
  let isAbsolute := t.source.head? = some 0x2F
  let here ← nameAt? (bytesOf "./x")
  let there ← nameAt? t.place
  let isHere := match here, there with
    | some l, some m => l.dropLast = m.dropLast
    | _, _ => true
  if !isAbsolute && !isHere then
    Copier.failWith (shown t.place ++
      ": can make relative symbolic links only in current directory")
  c.symbolicLink t.place t.source (" to " ++ inQuotes t.source)

/-- Copies something that is no directory. -/
def single (c : Copying) (t : Task) (src : Seen) (room : Room) : Copier Unit := do
  match c.product with
  | .links => c.linkTo t
  | .names =>
    let follow := c.dereferencing = .always || (c.dereferencing = .operands && t.isOperand)
    anotherName follow (c.force || c.overwriting = .asked) false t.source t.place
  | .copies =>
    let files ← files
    match src.kind, src.location.bind files.get? with
    | .link, some (.link target) => c.symbolicLink t.place (bytesOf target) ""
    | _, _ => c.regularFile t src room

/-- Decides what comes of something having been copied before; the answer says whether there is
nothing left to do. -/
def again (c : Copying) (t : Task) (src : Seen) (earlier : Bytes) : Copier Bool := do
  let followed := c.dereferencing = .always || (c.dereferencing = .operands && t.isOperand)
  if !src.isDirectory then
    anotherName followed true c.verbose earlier t.place
    return true
  else if ← isSameName t.source earlier then
    modify fun m => { m with intoItself := true }
    Copier.failWith ("cannot copy a directory, " ++ inQuotes t.whole.1 ++ ", into itself, " ++
      inQuotes t.whole.2)
  else if ← isSameName t.place earlier then
    report ("warning: source directory " ++ inQuotes t.whole.1 ++ " specified more than once")
    return true
  else if followed then return false
  else
    Copier.failWith ("will not create hard link " ++ inQuotes t.place ++ " to directory " ++
      inQuotes earlier)

/-- Where something has been copied before, as far as that counts. -/
def earlier? (c : Copying) (t : Task) (src : Seen) : Copier (Option Bytes) := do
  let key := src.key? (← files)
  let mayRepeat := 1 < src.names || c.dereferencing = .always ||
    (t.isOperand && c.dereferencing = .operands)
  if c.recursive && src.isDirectory then
    if t.isOperand then Copier.remember key t.place
    else return ((← get).copies.find? (fun m => key = some m.1)).map (·.2)
  else if c.keepsNames && c.product ≠ .names && mayRepeat then Copier.remember key t.place
  else return none

/-- The names in a directory; those that have been made meanwhile come last. -/
def namesToCopy (l : Location) : Copier (List Bytes) := do
  let made := (← get).copies.map (·.1)
  let inside := (← files).below l
  let ordered := inside.filter (fun m => !made.contains m) ++ inside.filter made.contains
  return ordered.filterMap (fun m => m.getLast?.map bytesOf)

/-- Makes the directory that another one is copied to, unless it is there. -/
def makeDirectory (c : Copying) (t : Task) (src : Seen) (room : Room) : Copier Bool := do
  if !room.isNew && room.old.any Seen.isDirectory then return false
  let p ← absolute t.place
  match ← changeFiles (fun files => files.mkdir p) with
  | .error e =>
    Copier.failWith ("cannot create directory " ++ inQuotes t.place ++ ": " ++ e.reason)
  | .ok () => do
    setMode t.place (permittedMode (← getThe Session) (src.mode &&& 0o1777) ||| 0o700)
    if !t.begun then discard (Copier.remember (← nameAt? t.place) t.place)
    c.announce t none
    return true

/-- Copies what stands at one place to another, through at most so many levels of directories. -/
def copy (c : Copying) : Nat → Task → StateT Made Sh Bool
  | 0, _ => return false
  | levels + 1, t => Copier.succeeds do
    match ← Seen.at? (c.dereferencing ≠ .never) t.source with
    | .error e => Copier.failWith ("cannot stat " ++ inQuotes t.source ++ ": " ++ e.reason)
    | .ok src => do
      if src.isDirectory && !c.recursive then
        Copier.failWith ("-r not specified; omitting directory " ++ inQuotes t.source)
      if t.isOperand && t.several then
        let name := (← nameAt? t.source).toList
        let repeated := name.any ((← get).sources.contains ·)
        if repeated && !src.isDirectory && c.backups.kind = .none then
          report ("warning: source file " ++ inQuotes t.source ++ " specified more than once")
          throw true
        modify fun m => { m with sources := name ++ m.sources }
      let room ← c.clear t src
      if t.isOperand && t.several && c.backups.kind = .none then
        let name ← nameAt? t.place
        let isLink := (← look false t.place).toOption = some .link
        if isLink && (name.map ((← get).targets.contains ·)).getD false then
          Copier.failWith ("will not copy " ++ inQuotes t.source ++
            " through just-created symlink " ++ inQuotes t.place)
      if !src.isDirectory then c.announce t room.backup
      try produce levels t src room
      catch ok => do
        if !ok then restore t src room
        throw ok
where
  /-- Makes the copy, with what is in it if it is a directory. -/
  produce (levels : Nat) (t : Task) (src : Seen) (room : Room) : Copier Bool := do
    match ← c.earlier? t src with
    | some earlier => if ← c.again t src earlier then throw true
    | none => pure ()
    let ok ← if src.isDirectory then inside levels t src room else do
      c.single t src room
      pure true
    if t.isOperand && t.several then
      let name ← nameAt? t.place
      modify fun m => { m with targets := name.toList ++ m.targets }
    if src.isDirectory then
      let s ← getThe Session
      match c.keepsMode with
      | some true => setMode t.place src.mode
      | some false => setMode t.place (permittedMode s Permissions.ordinary)
      | none =>
        if room.isNew then setMode t.place (permittedMode s (src.mode &&& 0o1777))
    return ok
  /-- Copies a directory with what is in it. -/
  inside (levels : Nat) (t : Task) (src : Seen) (room : Room) : Copier Bool := do
    let l := src.location.getD []
    if t.above.contains l then
      Copier.failWith ("cannot copy cyclic symbolic link " ++ inQuotes t.source)
    let made ← c.makeDirectory t src room
    let below_ := if c.dereferencing = .operands
      then { c with dereferencing? := some .never } else c
    if !(← files).permits .read l then
      Copier.failWith ("cannot access " ++ inQuotes t.source ++ ": " ++
        FileError.permissionDenied.reason)
    let names ← if src.location.isSome then namesToCopy l else pure []
    let results ← names.mapM fun name => do
      if (← get).intoItself then return false
      else
        Copying.copy below_ levels { t with
          source := below t.source name
          place := below t.place name
          isOperand := false
          fresh := made
          absent := false
          begun := t.begun || made
          above := l :: t.above }
    return results.all (fun ok => ok)
  /-- Gives back what was kept under another name, and forgets the copy. -/
  restore (t : Task) (src : Seen) (room : Room) : Copier Unit := do
    let key := src.key? (← files)
    let isHere (m : Location × Bytes) : Bool := key = some m.1 && m.2 = t.place
    modify fun m => { m with copies := m.copies.filter (fun k => !isHere k) }
    match room.backup with
    | none => pure ()
    | some b => do
      let p ← absolute t.place
      let q ← absolute b
      match ← changeFiles (fun files => files.rename q p) with
      | .ok () =>
        say c.verbose (inQuotes b ++ " -> " ++ inQuotes t.place ++ " (unbackup)")
      | .error e => report ("cannot un-backup " ++ inQuotes t.place ++ ": " ++ e.reason)

/-! ## Operands -/

/-- Makes the directories above a source in the target; the answer says whether the last one is
new. -/
def makeParents (c : Copying) (target source : Bytes) : Copier Bool := do
  let pieces := Path.pieces (textOf (withoutSlashes source))
  let place (k : Nat) : Bytes × Bytes :=
    let part := bytesOf ("/".intercalate (pieces.take k))
    (part, if part.head? = some 0x2F then target ++ part else below target part)
  let steps := ((List.range pieces.length).drop 1).map place
  match steps.getLast? with
  | none => return false
  | some (_, parent) =>
    match ← look true parent with
    | .ok .directory => return false
    | .ok _ => Copier.failWith (inQuotes parent ++ " exists but is not a directory")
    | .error _ =>
      let steps := steps.filter (fun s => !s.1.isEmpty && s.1.getLast? ≠ some 0x2F)
      steps.foldlM (fun _ (part, d) => do
        let there ← look true d
        let source ← Seen.at? true part
        match there, source with
        | .ok .directory, .ok _ => return false
        | .ok .directory, .error e =>
          if c.keepsMode = some true then attributes part e else return false
        | .ok _, _ => Copier.failWith (inQuotes d ++ " exists but is not a directory")
        | .error _, .error e => attributes part e
        | .error _, .ok src =>
          if !src.isDirectory then attributes part .notADirectory
          else
            let p ← absolute d
            match ← changeFiles (fun files => files.mkdir p) with
            | .error e =>
              Copier.failWith ("cannot make directory " ++ inQuotes d ++ ": " ++ e.reason)
            | .ok () => do
              setMode d (← c.newMode Permissions.ordinary src)
              say c.verbose (textOf part ++ " -> " ++ textOf d)
              return true) false
where
  /-- Says that nothing can be told about a directory. -/
  attributes (part : Bytes) (e : FileError) : Copier Bool :=
    Copier.failWith ("failed to get attributes of " ++ inQuotes part ++ ": " ++ e.reason)

/-- The place that a source goes to if the directories above it are made. -/
def placeBelow (target source : Bytes) : Bytes :=
  let source := withoutSlashes source
  if source.head? = some 0x2F then
    (if target.getLast? = some 0x2F then target.dropLast else target) ++ source
  else below target source

/-- Copies operands. -/
def all (c : Copying) (t : Transfer) : StateT Made Sh Bool := do
  let levels := (← files).entries.size + 2
  let several := 1 < t.sources.length
  let results ← t.sources.mapM fun source => Copier.succeeds do
    let source := if t.into && c.stripped then withoutSlashes source else source
    let place := if t.into && c.parents then placeBelow t.target source else t.place source
    let fresh ← if t.into && c.parents then c.makeParents t.target source else pure false
    c.copy levels {
      source, place, several, fresh, whole := (source, place), absent := t.absent }
  return results.all (fun ok => ok)

/-- The copy of a file to its own backup, if that is wanted. -/
def ontoItself (c : Copying) (t : Transfer) : Sh (Copying × Transfer) := do
  let source := t.sources.headD []
  let isFile := (← Seen.at? true source).toOption.any Seen.isRegular
  if !t.into && c.force && c.backups.kind ≠ .none && source = t.target && isFile then
    return ({ c with backups := {} }, { t with target := ← c.backups.nameOf t.target })
  else return (c, t)

/-! ## Switches -/

/-- What can be kept. -/
def attributes : List String :=
  ["mode", "timestamps", "ownership", "links", "context", "xattr", "all"]

/-- Keeps something about the sources, or does not. -/
def keeping (c : Copying) (on : Bool) (list : Bytes) : Sh Copying := do
  let words := Path.splitOn ',' (textOf list).toList
  let switch := if on then "--preserve" else "--no-preserve"
  words.foldlM (fun c w => do
    match ← choice (attributes.map (fun a => [a])) switch (bytesOf (String.ofList w)) with
    | "mode" => return { c with keepsMode := some on }
    | "links" => return { c with keepsNames := on }
    | "context" => return { c with keepsContext := on }
    | "all" => return { c with keepsMode := some on, keepsNames := on }
    | _ => return c) c

/-- Words for the ways to treat holes. -/
def sparsities : List (List String) := [["never"], ["auto"], ["always"]]

/-- Words for the cases in which content is shared. -/
def clonings : List (List String) := [["auto"], ["always"], ["never"]]

/-- Takes what a switch says. -/
def switched (c : Copying) (g : Given) : Sh Copying := do
  match g.name, g.value with
  | "archive", _ => return { c with
      dereferencing? := some .never
      keepsNames := true
      keepsMode := some true
      recursive := true }
  | "attributes-only", _ => return { c with withContent := false }
  | "d", _ => return { c with keepsNames := true, dereferencing? := some .never }
  | "dereference", _ => return { c with dereferencing? := some .always }
  | "force", _ => return { c with force := true }
  | "H", _ => return { c with dereferencing? := some .operands }
  | "interactive", _ => return { c with overwriting := .asked }
  | "link", _ =>
    return if c.product = .links then c else { c with product := .names }
  | "no-clobber", _ => return { c with overwriting := .never }
  | "no-dereference", _ => return { c with dereferencing? := some .never }
  | "no-preserve", some list => c.keeping false list
  | "p", _ | "preserve", none => return { c with keepsMode := some true }
  | "preserve", some list => c.keeping true list
  | "parents", _ => return { c with parents := true }
  | "recursive", _ => return { c with recursive := true }
  | "reflink", value => do
    let word ← match value with
      | some v => choice clonings "--reflink" v
      | none => pure "always"
    return { c with cloned := word = "always" }
  | "remove-destination", _ => return { c with removes := true }
  | "sparse", some value => do
    return { c with sparse := (← choice sparsities "--sparse" value) ≠ "auto" }
  | "strip-trailing-slashes", _ => return { c with stripped := true }
  | "symbolic-link", _ => return { c with product := .links }
  | "update", _ => return { c with update := true }
  | "verbose", _ => return { c with verbose := true }
  | "context", some _ => do
    report "warning: ignoring --context; it requires an SELinux-enabled kernel"
    return c
  | _, _ => return c

/-- The switches. -/
def switches : List Switch := [
  .named "archive" "a", .named "attributes-only", .named "backup" "b" .perhaps,
  .named "copy-contents", .named "dereference" "L", .named "force" "f",
  .named "interactive" "i", .named "link" "l", .named "no-clobber" "n",
  .named "no-dereference" "P", .named "no-preserve" "" .always,
  .named "no-target-directory" "T", .named "one-file-system" "x",
  (Switch.named "parents").also "path", .named "preserve" "" .perhaps,
  .named "recursive" "rR", .named "remove-destination", .named "sparse" "" .always,
  .named "reflink" "" .perhaps, .named "strip-trailing-slashes", .named "suffix" "S" .always,
  .named "symbolic-link" "s", .named "target-directory" "t" .always, .named "update" "u",
  .named "verbose" "v", .named "context" "Z" .perhaps, .lettered 'd', .lettered 'H',
  .lettered 'p']

/-- What the switches say together. -/
def settled (c : Copying) (a : Arguments) : Sh Copying := do
  if (a.given.filter (fun g => g.name = "target-directory")).length > 1 then
    report "multiple target directories specified"
    quit 1
  if a.has "link" && a.has "symbolic-link" then
    misuse "cannot make both hard and symbolic links"
  let kept := a.has "backup" || a.has "suffix"
  if kept && c.overwriting = .never then
    misuse "options --backup and --no-clobber are mutually exclusive"
  if c.cloned && c.sparse then misuse "--reflink can be used only with --sparse=auto"
  let backups ← Backups.read a
  if c.keepsContext then
    report "cannot preserve security context without an SELinux-enabled kernel"
    quit 1
  return { c with
    backups
    throughLinks := (← seen? "POSIXLY_CORRECT").isSome }

end Copying

/-- Copies files, and with a switch directories. -/
def cp : Utility :=
  withChecked 1 Copying.switches (return) (fun g => discard (Copying.switched {} g)) fun a => do
    let quiet (g : Given) : Bool := g.name ≠ "context"
    let c ← (a.given.filter quiet).foldlM Copying.switched {}
    let c ← c.settled a
    let t ← Transfer.read a
    if c.parents && !t.into then misuse "with --parents, the destination must be a directory"
    let (c, t) ← c.ontoItself t
    let (ok, _) ← (c.all t).run {}
    return if ok then 0 else 1

end BlockFlow.Shell.Utilities
