import BlockFlow.Shell.Installed

/-! # Opening files

What a path leads to when it is opened: a file of the run, a device or a directory that every system
has, or what a descriptor of the shell leads to already. -/

namespace BlockFlow.Shell

/-- How a file is opened. -/
structure Opening where
  readable : Bool := false
  writable : Bool := false
  appends : Bool := false
  /-- Whether an earlier content goes. -/
  truncates : Bool := false
  /-- Whether there must be no file yet. -/
  fresh : Bool := false

/-- Permissions without those that the session takes from what it makes. -/
def permittedMode (s : Session) (mode : Nat) : Nat := mode - (mode &&& s.umask)

/-- Opens what a location holds. -/
def addOpen (f : OpenFile) : Sh Channel :=
  Sh.onSystem fun sys =>
    let (id, sys) := sys.addFile f
    (.file id, sys)

/-- Opens a channel of the system again: a file at its beginning, and anything else as it is. -/
def reopen (o : Opening) (c : Channel) : Sh Channel := do
  match c with
  | .file id =>
    match (← Sh.system).opened.get? id with
    | none => return c
    | some f => do
      if o.truncates then
        discard (changeFiles fun files =>
          match files.get? f.at_ with
          | some (.file _) => .ok (files.fill f.at_ .empty)
          | _ => .ok files)
      addOpen { f with
        position := 0
        readable := o.readable
        writable := o.writable
        appends := o.appends }
  | c => return c

/-- Opens a file of the run. -/
def openFile (o : Opening) (p : Path) : Sh (Except FileError Channel) := do
  let files ← files
  let old := files.stat p
  if !o.writable then
    match old, files.walk true p with
    | .ok _, .ok l =>
      if files.permits .read l then return .ok (← addOpen { at_ := l, readable := true })
      else return .error .permissionDenied
    | .error e, _ | _, .error e => return .error e
  else
    if o.fresh && (match old with
      | .ok (.file _) => true
      | _ => false) then return .error .alreadyExists
    let content : ByteArray := if o.truncates then .empty else
      match old with
      | .ok (.file content) => content
      | _ => .empty
    let mode := permittedMode (← get) 0o666
    match ← changeFiles (fun files => do
      let new ← files.write p content
      if old.toBool then return new else return new.withMode (← new.walk true p) mode) with
    | .error e => return .error e
    | .ok () =>
      match (← Shell.files).walk true p with
      | .error e => return .error e
      | .ok l =>
        let f : OpenFile :=
          { at_ := l, readable := o.readable, writable := true, appends := o.appends }
        return .ok (← addOpen f)

/-- Opens what stands at a path. -/
def open_ (o : Opening) (name : Bytes) : Sh (Except FileError Channel) := do
  let p ← pathOf name
  let s ← get
  let inTree := ((← files).stat p).toBool
  match (Installed.descriptorAt? p).bind (fun n => s.channels.get? n) with
  | some c => return .ok (← reopen o c)
  | none =>
    match if inTree then none else Installed.find? p with
    | some .device => return .ok ((Installed.deviceAt? p).getD .null)
    | some .directory => return if o.writable then .error .isADirectory else .ok .directory
    | some _ => return if o.writable then .error .permissionDenied else .ok .null
    | none => openFile o p

/-- What a utility reads when it is given this name; a hyphen stands for the standard input. -/
def openInput (name : Bytes) : Sh (Except FileError Channel) := do
  if name ≠ [0x2D] then open_ { readable := true } name
  else
    match (← get).channels.get? 0 with
    | some c => return .ok c
    | none => return .error .badDescriptor

end BlockFlow.Shell
