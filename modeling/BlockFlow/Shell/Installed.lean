import BlockFlow.Shell.Session

/-! # What every system has

Besides the files of a run there are directories with programs, and devices.  A path is looked up
here if no file of the run stands at it.  The devices `/dev/stdin`, `/dev/stdout`, `/dev/stderr` and
those in `/dev/fd` are what the descriptors of the shell lead to. -/

namespace BlockFlow.Shell

/-- What stands at a path. -/
inductive Kind where
  | file (size : Nat)
  | directory
  | link
  /-- A device for single characters. -/
  | device
  | pipe
  deriving DecidableEq, Inhabited, Repr

namespace Installed

/-- The names of a path without dots: two of them take a name away. -/
def plainNames (p : Path) : List String :=
  (p.names.foldl (fun up n => if n = ".." then up.drop 1 else n :: up) []).reverse

/-- An absolute path without dots. -/
def withoutDots (p : Path) : Path := "/" ++ "/".intercalate (plainNames p)

/-- The directories. -/
def directories : List Path :=
  ["/", "/bin", "/boot", "/dev", "/dev/fd", "/etc", "/home", "/lib", "/media", "/mnt", "/opt",
    "/proc", "/root", "/run", "/sbin", "/srv", "/sys", "/tmp", "/usr", "/usr/bin", "/usr/lib",
    "/usr/local", "/usr/local/bin", "/usr/sbin", "/usr/share", "/var", "/var/lib", "/var/tmp"]

/-- The directories at the root that are links to directories of one name in `/usr`. -/
def linked : List String := ["bin", "lib", "sbin"]

/-- The names from the root to what the names of a path lead to. -/
def targetOf : List String → List String
  | n :: ns => if linked.contains n then "usr" :: n :: ns else n :: ns
  | [] => []

/-- Directories that programs are found in, the first one being where they are. -/
def programDirectories : List Path := ["/usr/bin/", "/bin/"]

/-- The names of the shells. -/
def shells : List String := ["sh", "dash", "bash"]

/-- The names of the programs. -/
def programs : List String :=
  shells ++ ["[", "cat", "cp", "echo", "false", "head", "ln", "ls", "mkdir", "mv", "printf", "pwd",
    "rm", "rmdir", "sleep", "test", "touch", "true", "yes"]

/-- The name of the program at a path. -/
def programAt? (p : Path) : Option String :=
  if p.endsWithSlash then none
  else
    let plain := (withoutDots p).toList
    (programDirectories.find? (fun d => d.toList.isPrefixOf plain)).bind fun d =>
      programs.find? (fun n => n.toList = plain.drop d.length)

/-- The devices, and what they lead to. -/
def devices : List (Path × Channel) :=
  [("/dev/null", .null), ("/dev/zero", .zeros false), ("/dev/full", .zeros true),
    ("/dev/random", .zeros false), ("/dev/urandom", .zeros false)]

/-- What the device at a path leads to. -/
def deviceAt? (p : Path) : Option Channel :=
  (devices.find? (fun d => d.1 = withoutDots p)).map (·.2)

/-- The descriptor that a path leads to. -/
def descriptorAt? (p : Path) : Option Nat :=
  match plainNames p with
  | ["dev", "stdin"] => some 0
  | ["dev", "stdout"] => some 1
  | ["dev", "stderr"] => some 2
  | ["dev", "fd", n] | ["proc", "self", "fd", n] => n.toNat?
  | _ => none

/-- What stands at an absolute path. -/
def find? (p : Path) : Option Kind :=
  let plain := withoutDots p
  if p = "" then none
  else if directories.contains plain then some .directory
  else if p.endsWithSlash then none
  else if (deviceAt? p).isSome then some .device
  else if (programAt? p).isSome then some (.file 1)
  else none

end Installed

/-- What kind of thing an entry is. -/
def Kind.ofEntry : Entry → Kind
  | .file content => .file content.size
  | .directory => .directory
  | .link _ => .link

/-- What kind of thing a channel leads to. -/
def System.kindOf (sys : System) : Channel → Option Kind
  | .null | .zeros _ => some .device
  | .directory => some .directory
  | .source _ | .sink _ => some .pipe
  | .file id => do
    let f ← sys.opened.get? id
    match f.kept with
    | some content => return .file content.size
    | none => return .ofEntry (← sys.files.get? f.at_)

/-- What stands at an absolute path; a link at the end is followed if `follow` holds. -/
def System.look (sys : System) (channels : SortedMap Nat Channel) (follow : Bool) (p : Path) :
    Except FileError Kind := do
  let entry : Except FileError Entry := do
    match sys.files.get? (← sys.files.walk follow p) with
    | some e => return e
    | none => throw .notFound
  match entry with
  | .ok e => return .ofEntry e
  | .error .notFound =>
    let open_ := (Installed.descriptorAt? p).bind (fun n => channels.get? n)
    match open_.bind sys.kindOf with
    | some k => return if follow then k else .link
    | none =>
      match Installed.find? p with
      | some k =>
        let isLink := Installed.linked.any (fun n => p = "/" ++ n)
        return if isLink && !follow then .link else k
      | none => throw .notFound
  | .error e => throw e

/-- What stands at a path. -/
def look (follow : Bool) (name : Bytes) : Sh (Except FileError Kind) := do
  let p ← pathOf name
  return (← Sh.system).look (← get).channels follow p

end BlockFlow.Shell
