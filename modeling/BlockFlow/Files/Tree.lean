import BlockFlow.SortedMap
import BlockFlow.Path

/-! # File trees

A file tree binds locations to files, directories and symbolic links.  A location is the list of
names from the root; the root itself is always a directory.  Every operation takes an absolute path
and first finds the location that it names: `walk` goes through the names and through the links on
the way, and fails like an operating system does.  An operation that fails changes nothing.

The view is `get?`, the entry at a location.  A file may have several names, which are locations
that hold the same content; `fill` writes to all of them.  Everything belongs to one owner, whose
permissions count: `permits` tells whether an entry may be used in a way. -/

namespace BlockFlow

/-- Why an operation on files fails. -/
inductive FileError where
  | notFound
  | notADirectory
  | isADirectory
  | alreadyExists
  | directoryNotEmpty
  | invalidFilename
  | filesystemLoop
  | permissionDenied
  | badDescriptor
  | brokenPipe
  | noSpace
  | emptyPath
  | invalidInput
  | invalidData
  deriving DecidableEq, Inhabited, Repr

/-- The wording of an error. -/
def FileError.reason : FileError → String
  | .notFound => "No such file or directory"
  | .notADirectory => "Not a directory"
  | .isADirectory => "Is a directory"
  | .alreadyExists => "File exists"
  | .directoryNotEmpty => "Directory not empty"
  | .invalidFilename => "File name too long"
  | .filesystemLoop => "Too many levels of symbolic links"
  | .permissionDenied => "Permission denied"
  | .badDescriptor => "Bad file descriptor"
  | .brokenPipe => "Broken pipe"
  | .noSpace => "No space left on device"
  | .emptyPath => "cannot make an empty path absolute"
  | .invalidInput => "file name contained an unexpected NUL byte"
  | .invalidData => "stream did not contain valid UTF-8"

/-- The number of an error on files, for those that the operating system reports. -/
def FileError.number? : FileError → Option Nat
  | .notFound => some 2
  | .badDescriptor => some 9
  | .permissionDenied => some 13
  | .alreadyExists => some 17
  | .notADirectory => some 20
  | .isADirectory => some 21
  | .noSpace => some 28
  | .brokenPipe => some 32
  | .invalidFilename => some 36
  | .directoryNotEmpty => some 39
  | .filesystemLoop => some 40
  | .emptyPath | .invalidInput | .invalidData => none

/-- The wording of an error on files, with its number. -/
def FileError.message (e : FileError) : String :=
  match e.number? with
  | some n => e.reason ++ " (os error " ++ toString n ++ ")"
  | none => e.reason

/-- The names from the root to an entry. -/
abbrev Location := List String

instance : KeyOrder Location where
  irrefl := List.lt_irrefl
  trans := List.lt_trans
  trichotomy a b := by
    by_cases h : a < b
    · exact .inl h
    · by_cases h' : b < a
      · exact .inr (.inr h')
      · exact .inr (.inl (List.le_antisymm h' h))

/-- What a location is bound to. -/
inductive Entry where
  | file (content : ByteArray)
  | directory
  /-- A symbolic link to a path. -/
  | link (target : Path)
  deriving Inhabited

instance : DecidableEq Entry
  | .file a, .file b =>
    match a.instDecidableEq b with
    | isTrue h => isTrue (congrArg Entry.file h)
    | isFalse h => isFalse (fun e => h (Entry.file.inj e))
  | .link a, .link b =>
    match instDecidableEqString a b with
    | isTrue h => isTrue (congrArg Entry.link h)
    | isFalse h => isFalse (fun e => h (Entry.link.inj e))
  | .directory, .directory => isTrue rfl
  | .file _, .directory | .file _, .link _ | .directory, .file _ | .directory, .link _
  | .link _, .file _ | .link _, .directory => isFalse (fun e => nomatch e)

/-- Whether an entry is a regular file. -/
def Entry.isFile : Entry → Bool
  | .file _ => true
  | _ => false

/-- The permissions of an entry, if nothing else is said. -/
def Entry.usualMode : Entry → Nat
  | .file _ => 0o644
  | .directory => 0o755
  | .link _ => 0o777

/-- What is known about an entry besides what it holds. -/
structure Detail where
  /-- The permissions, if they are not the usual ones. -/
  mode : Option Nat := none
  /-- A number that all names of a file have in common, if it has several. -/
  shared : Option Nat := none
  deriving DecidableEq, Inhabited, Repr

/-- A file system below its root. -/
structure FileTree where
  entries : SortedMap Location Entry := ∅
  details : SortedMap Location Detail := ∅
  deriving Inhabited

namespace FileTree

/-- The greatest number of bytes in a name. -/
def maxNameBytes : Nat := 255

/-- The greatest number of bytes in a path. -/
def maxPathBytes : Nat := 4095

/-- The greatest number of links on the way to a location. -/
def maxLinks : Nat := 40

/-- What is at a location. -/
def get? (t : FileTree) (at_ : Location) : Option Entry :=
  match at_ with
  | [] => some .directory
  | _ => t.entries.get? at_

/-- Binds a location. -/
def put (t : FileTree) (at_ : Location) (e : Entry) : FileTree :=
  { t with entries := t.entries.insert at_ e }

/-- Frees a location. -/
def drop (t : FileTree) (at_ : Location) : FileTree :=
  { entries := t.entries.erase at_, details := t.details.erase at_ }

/-- Frees a location and everything below it. -/
def dropAll (t : FileTree) (at_ : Location) : FileTree where
  entries := t.entries.filter (fun l _ => !at_.isPrefixOf l)
  details := t.details.filter (fun l _ => !at_.isPrefixOf l)

theorem get?_put (t : FileTree) (a b : Location) (e : Entry) (ha : a ≠ []) :
    (t.put a e).get? b = if a = b then some e else t.get? b := by
  cases b with
  | nil => simp [get?, ha]
  | cons n ns => simp [get?, put, SortedMap.get?_insert]

theorem get?_drop (t : FileTree) (a b : Location) (ha : a ≠ []) :
    (t.drop a).get? b = if a = b then none else t.get? b := by
  cases b with
  | nil => simp [get?, ha]
  | cons n ns => simp [get?, drop, SortedMap.get?_erase]

/-! ## Names and permissions -/

/-- What is known about the entry at a location. -/
def detail (t : FileTree) (at_ : Location) : Detail := (t.details.get? at_).getD {}

/-- The locations that are names of one file. -/
def namesOf (t : FileTree) (at_ : Location) : List Location :=
  match (t.detail at_).shared with
  | none => [at_]
  | some n => (t.details.toList.filter (fun d => d.2.shared = some n)).map (·.1)

/-- Whether two locations are names of one entry. -/
def isSame (t : FileTree) (a b : Location) : Bool := a = b || (t.namesOf a).contains b

/-- Gives a file a content, under all of its names. -/
def fill (t : FileTree) (at_ : Location) (content : ByteArray) : FileTree :=
  (t.namesOf at_).foldl (fun t l => t.put l (.file content)) (t.put at_ (.file content))

/-- Changes what is known about the entry at a location. -/
def withDetail (t : FileTree) (at_ : Location) (d : Detail) : FileTree :=
  { t with details := t.details.insert at_ d }

/-- The permissions of the entry at a location. -/
def mode (t : FileTree) (at_ : Location) : Nat :=
  (t.detail at_).mode.getD (((t.get? at_).map Entry.usualMode).getD 0)

/-- Changes the permissions of the entry at a location. -/
def withMode (t : FileTree) (at_ : Location) (mode : Nat) : FileTree :=
  if t.mode at_ = mode then t
  else (t.namesOf at_).foldl (fun t l => t.withDetail l { t.detail l with mode := some mode }) t

/-- A way to use an entry: a directory is searched for the names in it. -/
inductive Access where
  | read
  | write
  | search
  deriving DecidableEq, Inhabited, Repr

/-- The bit of the owner's permissions that permits a way to use an entry. -/
def Access.bit : Access → Nat
  | .read => 0o400
  | .write => 0o200
  | .search => 0o100

/-- Whether the entry at a location may be used in a way that makes sense for it: usual permissions
allow that, others say so themselves. -/
def permits (t : FileTree) (a : Access) (at_ : Location) : Bool :=
  (t.detail at_).mode.all (fun m => m &&& a.bit ≠ 0)

/-- Makes another name of the entry at a location. -/
def link (t : FileTree) (source target : Location) (e : Entry) : FileTree :=
  -- The names of a file share a number, a new one if it had only one name so far.
  let fresh := (t.details.toList.filterMap (·.2.shared)).foldl max 0 + 1
  let d := { t.detail source with shared := some ((t.detail source).shared.getD fresh) }
  ((t.put target e).withDetail source d).withDetail target d

/-- Moves an entry that is no directory from one location to another, and frees that before. -/
def shift (t : FileTree) (source target : Location) (e : Entry) : FileTree :=
  let d := t.detail source
  let t := ((t.drop source).drop target).put target e
  -- Only what is unusual is kept.
  if d = {} then t else t.withDetail target d

/-! ## Finding a location -/

/-- Where going through names ends. -/
inductive Walk where
  /-- At a location, which may be free if its directory exists. -/
  | arrived (at_ : Location)
  /-- Before a link in the directory `at_`, with names left after it. -/
  | link (target : Path) (at_ : Location) (rest : List String)

/-- Goes through names from an existing directory up to the first link that counts.  A link at the
end counts only if it is to be followed. -/
def stroll (t : FileTree) (follow : Bool) : Location → List String → Except FileError Walk
  | at_, [] => .ok (.arrived at_)
  | at_, n :: rest =>
    -- Nothing stands between two slashes, and nothing is searched for it.
    if n = "" then stroll t follow at_ rest
    else if !t.permits .search at_ then .error .permissionDenied
    else if n = "." then stroll t follow at_ rest
    else if n = ".." then stroll t follow at_.dropLast rest
    else if maxNameBytes < n.utf8ByteSize then .error .invalidFilename
    else
      match t.get? (at_ ++ [n]) with
      | none => if rest.isEmpty then .ok (.arrived (at_ ++ [n])) else .error .notFound
      | some .directory => stroll t follow (at_ ++ [n]) rest
      | some (.file _) =>
        if rest.isEmpty then .ok (.arrived (at_ ++ [n])) else .error .notADirectory
      | some (.link target) =>
        if rest.isEmpty && !follow then .ok (.arrived (at_ ++ [n]))
        else .ok (.link target at_ rest)

/-- Goes through names from an existing directory, through at most so many links. -/
def walkFrom (t : FileTree) (follow : Bool) :
    Nat → Location → List String → Except FileError Location
  | links, at_, names =>
    match stroll t follow at_ names with
    | .error e => .error e
    | .ok (.arrived l) => .ok l
    | .ok (.link target dir rest) =>
      match links with
      | 0 => .error .filesystemLoop
      | links + 1 =>
        if target = "" then .error .notFound
        else
          -- A relative target starts in the directory of the link.
          walkFrom t follow links (if target.isAbsolute then [] else dir) (target.pieces ++ rest)

/-- The location that an absolute path names. -/
def walk (t : FileTree) (follow : Bool) (p : Path) : Except FileError Location :=
  if p.toList.contains '\x00' then .error .invalidInput
  else if p = "" then .error .notFound
  else if maxPathBytes < p.utf8ByteSize then .error .invalidFilename
  else walkFrom t follow maxLinks [] p.pieces

/-- A path without the slashes at its end; of the root one slash stays. -/
def withoutSlashes (p : Path) : Path :=
  match p.toList.reverse.dropWhile (· = '/') with
  | [] => if p = "" then "" else "/"
  | cs => String.ofList cs.reverse

/-- The location of the last name of an absolute path, which may be that of a link.  Slashes after
it count for nothing, except for the length of the path. -/
def walkToName (t : FileTree) (p : Path) : Except FileError Location :=
  if maxPathBytes < p.utf8ByteSize && !p.toList.contains '\x00' then .error .invalidFilename
  else t.walk false (withoutSlashes p)

/-! ## Looking -/

/-- What a path names, links followed. -/
def stat (t : FileTree) (p : Path) : Except FileError Entry := do
  match t.get? (← t.walk true p) with
  | some e => return e
  | none => throw .notFound

/-- Whether a path names a regular file. -/
def isFile (t : FileTree) (p : Path) : Bool :=
  match t.stat p with
  | .ok (.file _) => true
  | _ => false

/-- Whether a path names a directory. -/
def isDirectory (t : FileTree) (p : Path) : Bool :=
  match t.stat p with
  | .ok .directory => true
  | _ => false

/-- The content of the file that a path names. -/
def read (t : FileTree) (p : Path) : Except FileError ByteArray := do
  match ← t.stat p with
  | .file content =>
    if t.permits .read (← t.walk true p) then return content else throw .permissionDenied
  | _ => throw .isADirectory

/-- The content of the file that a path names, as text. -/
def readText (t : FileTree) (p : Path) : Except FileError String := do
  match String.fromUTF8? (← t.read p) with
  | some s => return s
  | none => throw .invalidData

/-- The locations directly below one, in order. -/
def below (t : FileTree) (at_ : Location) : List Location :=
  t.entries.keys.filter (fun l => l ≠ [] && l.dropLast = at_)

/-! ## Changing -/

/-- Fails unless the directory of a location may be written to. -/
def mayChange (t : FileTree) (at_ : Location) : Except FileError Unit :=
  if t.permits .write at_.dropLast then .ok () else .error .permissionDenied

/-- Writes a file, over an earlier content. -/
def write (t : FileTree) (p : Path) (content : ByteArray) : Except FileError FileTree := do
  match t.walk true p with
  | .error .notFound =>
    -- A free name with a slash behind it could only be that of a directory.
    if p.endsWithSlash && (t.walk true (withoutSlashes p)).toBool then throw .isADirectory
    else throw .notFound
  | .error e => throw e
  | .ok l =>
    match t.get? l with
    | some .directory => throw .isADirectory
    | some _ => if t.permits .write l then return t.fill l content else throw .permissionDenied
    | none => (t.mayChange l).map (fun _ => t.fill l content)

/-- Makes a directory. -/
def mkdir (t : FileTree) (p : Path) : Except FileError FileTree := do
  let l ← t.walkToName p
  match t.get? l with
  | some _ => throw .alreadyExists
  | none => (t.mayChange l).map (fun _ => t.put l .directory)

/-- Makes a directory at a path; if its parent is missing, that is made first, at the path of the
names `up`, which are given from the last to the first.  What is made stays, even if a later step
fails. -/
def mkdirUnder (t : FileTree) (p : Path) : List String → FileTree × Except FileError Unit
  | [] => settle t
  | _ :: up =>
    match t.mkdir p with
    | .error .notFound =>
      match mkdirUnder t ("/" ++ "/".intercalate up.reverse) up with
      | (t, .ok ()) => settle t
      | failed => failed
    | _ => settle t
where
  /-- Makes the directory unless it is there. -/
  settle (t : FileTree) : FileTree × Except FileError Unit :=
    match t.mkdir p with
    | .ok t => (t, .ok ())
    -- A directory that is there already will do.
    | .error e => (t, if t.isDirectory p then .ok () else .error e)

/-- Makes a directory and the directories above it. -/
def createDirectories (t : FileTree) (p : Path) : FileTree × Except FileError Unit :=
  t.mkdirUnder p p.names.reverse

/-- Removes an empty directory. -/
def rmdir (t : FileTree) (p : Path) : Except FileError FileTree := do
  let l ← t.walkToName p
  match t.get? l with
  | none => throw .notFound
  | some .directory => do
    t.mayChange l
    if (t.below l).isEmpty then return t.drop l else throw .directoryNotEmpty
  | some _ => do
    t.mayChange l
    throw .notADirectory

/-- Removes a file or a link. -/
def unlink (t : FileTree) (p : Path) : Except FileError FileTree := do
  let l ← t.walkToName p
  match t.get? l with
  | none => throw .notFound
  | some .directory => do
    t.mayChange l
    throw .isADirectory
  | some _ =>
    if p.endsWithSlash then throw .notADirectory
    t.mayChange l
    return t.drop l

/-- Moves what is at one location, with everything below it, to another. -/
def relocate (t : FileTree) (source target : Location) : FileTree :=
  let place (l : Location) : Location := target ++ l.drop source.length
  let entries := t.entries.toList.filter (fun e => source.isPrefixOf e.1)
  let details := t.details.toList.filter (fun d => source.isPrefixOf d.1)
  let t := entries.foldl (fun t e => t.put (place e.1) e.2) (t.dropAll source)
  details.foldl (fun t d => t.withDetail (place d.1) d.2) t

/-- Renames a file, link or directory.  A file may replace a file, a directory an empty one; only
the path of a directory may end with a slash. -/
def rename (t : FileTree) (source target : Path) : Except FileError FileTree := do
  let s ← t.walkToName source
  let d ← t.walkToName target
  let some moving := t.get? s | throw .notFound
  if moving ≠ .directory && (source.endsWithSlash || target.endsWithSlash) then
    throw .notADirectory
  -- Between names of one file there is nothing to do, whatever may be changed.
  if t.isSame s d then return t
  t.mayChange s
  t.mayChange d
  match moving, t.get? d with
  | .directory, some .directory =>
    -- A directory cannot be moved into itself.
    if s.isPrefixOf d then throw .invalidInput
    else if (t.below d).isEmpty then return (t.drop d).relocate s d
    else throw .directoryNotEmpty
  | .directory, some _ => throw .notADirectory
  | .directory, none => if s.isPrefixOf d then throw .invalidInput else return t.relocate s d
  | _, some .directory => throw .isADirectory
  | e, _ => return t.shift s d e

/-! ## Fresh directories -/

/-- The last six digits of a number. -/
def sixDigits (n : Nat) : String :=
  String.ofList ([5, 4, 3, 2, 1, 0].map (fun k => Nat.digitChar (n / Nat.pow 10 k % 10)))

/-- How many names with six digits there are. -/
def maxFreshNames : Nat := 1000000

/-- A name that begins with `stem` and ends with six digits, and is free below a location unless all
such names are taken. -/
def freshName (t : FileTree) (dir : Location) (stem : String) : String :=
  let numbers := List.range (min (t.entries.size + 1) maxFreshNames)
  let names := numbers.map (fun n => stem ++ sixDigits n)
  (names.find? (fun n => (t.get? (dir ++ [n])).isNone)).getD (stem ++ sixDigits 0)

/-- Makes a new directory in another, under a name that begins with `stem`. -/
def mkdirFresh (t : FileTree) (dir : Path) (stem : String) :
    Except FileError (FileTree × Path) := do
  let l ← t.walk true dir
  let p := Path.join dir (t.freshName l stem)
  return (← t.mkdir p, p)

/-- Whether what is in a directory cannot be removed, or not even be looked for. -/
def isStuck (t : FileTree) (at_ : Location) : Bool :=
  (t.detail at_).mode.isSome && t.get? at_ = some .directory &&
    (!t.permits .read at_ ||
      (!(t.permits .write at_ && t.permits .search at_) && !(t.below at_).isEmpty))

/-- Removes a directory with everything in it, if it is there, as far as permissions allow it. -/
def removeAll (t : FileTree) (p : Path) : FileTree :=
  match t.walk false p with
  | .error _ => t
  | .ok l =>
    let stuck := t.details.keys.filter (fun m => l.isPrefixOf m && t.isStuck m)
    if l = [] then t
    else if stuck.isEmpty then t.dropAll l
    else
      -- What is stuck holds everything in it and above it.
      let goes (m : Location) : Bool :=
        l.isPrefixOf m && !stuck.any (fun s => m.isPrefixOf s || s.isPrefixOf m)
      { entries := t.entries.filter (fun m _ => !goes m)
        details := t.details.filter (fun m _ => !goes m) }

end FileTree

end BlockFlow
