import BlockFlow.Shell.Builtin.Basic
import BlockFlow.Shell.Installed

/-! # Builtin commands for the working directory and for permissions -/

namespace BlockFlow.Shell.Builtin

/-! ## The working directory -/

/-- An absolute path without dots; two slashes at its start stay. -/
def logical (p : Path) : Path :=
  (if Path.startsWithTwoSlashes p then "/" else "") ++ Installed.withoutDots p

/-- The working directory without links on the way. -/
def physical (p : Path) : Sh Path := do
  match (← files).walk true p with
  | .ok l => return "/" ++ "/".intercalate (Installed.targetOf l)
  | .error _ => return p

/-- Whether the directory at an absolute path may be entered. -/
def isOpen (p : Path) : Sh Bool := do
  let files ← files
  match files.walk true p with
  | .ok l => return files.permits .search l
  | .error _ => return true

/-- Whether a directory stands at an absolute path. -/
def isDirectory (p : Path) : Sh Bool := do
  match (← Sh.system).look (← get).channels true p with
  | .ok .directory => return true
  | _ => return false

/-- Makes a directory the working directory.  The programs that have been found may be others
there. -/
def enter (isPhysical : Bool) (d : String) : Sh Unit := do
  let s ← get
  let p := Path.join s.directory d
  let p ← if isPhysical then physical p else pure (logical p)
  if !((← isDirectory p) && (← isOpen p)) then refuse 2 ("can't cd to " ++ d)
  set { s with directory := p }
  assign "OLDPWD" (bytesOf s.directory)
  markVariable "OLDPWD" Variable.seen
  assign "PWD" (bytesOf p)
  markVariable "PWD" Variable.seen
  modify fun s => { s with found := s.found.map (fun f => { f with stale := true }) }

/-- The directories that a directory may be in. -/
def searchDirectories (d : String) : Sh (List String) := do
  let first := (Path.pieces d).head?
  if Path.isAbsolute d || first = some "." || first = some ".." then return []
  else
    match ← lookUp? "CDPATH" with
    | some places => return (Path.splitOn ':' (textOf places).toList).map String.ofList
    | none => return []

/-- The first of some places that has a directory. -/
def placeOf? (d : String) : List String → Sh (Option String)
  | [] => return none
  | place :: places => do
    let q := if place = "" then d else place ++ "/" ++ d
    if ← isDirectory (Path.join (← get).directory q) then return some place
    else placeOf? d places

/-- Changes the working directory, and writes it if that is not plain from the argument. -/
def cd : Builtin := fun args => do
  let (given, operands) ← plainSwitches ['L', 'P'] args
  let back := operands.head? = some [0x2D]
  let wanted ← match operands with
    | [] => lookUp? "HOME"
    | d :: _ => if back then lookUp? "OLDPWD" else pure (some d)
  let text := textOf (wanted.getD [])
  let places ← searchDirectories text
  let d := if text = "" then "." else text
  let place := (← placeOf? d places).getD ""
  enter (given.getLast? = some 'P') (if place = "" then d else place ++ "/" ++ d)
  if back || place ≠ "" then writeLine (bytesOf (← get).directory)
  finish 0

/-- Writes the working directory. -/
def pwd : Builtin := fun args => do
  let (given, _) ← plainSwitches ['L', 'P'] args
  let p := (← get).directory
  writeLine (bytesOf (← if given.getLast? = some 'P' then physical p else pure p))
  finish 0

/-! ## Permissions -/

/-- Who a permission is for, with the place of its three bits. -/
def owners : List (Char × Nat) := [('u', 6), ('g', 3), ('o', 0)]

/-- What may be permitted, with its bit. -/
def permissions : List (Char × Nat) := [('r', 4), ('w', 2), ('x', 1)]

/-- Permissions in letters. -/
def symbolic (mode : Nat) : String :=
  let of (o : Char × Nat) : String :=
    let bits := mode >>> o.2
    let letters := (permissions.filter (fun p => bits &&& p.2 ≠ 0)).map (·.1)
    String.ofList (o.1 :: '=' :: letters)
  ",".intercalate (owners.map of)

/-- Permissions in digits. -/
def octal (mode : Nat) : String :=
  String.ofList ([512, 64, 8, 1].map (fun unit => Char.ofNat (mode / unit % 8 + 0x30)))

/-- The owners that a letter names, as the lowest bit of each. -/
def ownersNamed (c : Char) : Nat :=
  if c = 'a' then 73
  else
    match owners.find? (fun o => o.1 = c) with
    | some o => 1 <<< o.2
    | none => 0

/-- The bits that a letter after a sign means, where `mode` is permitted at first. -/
def permittedBy (mode : Nat) (c : Char) : Nat :=
  match permissions.find? (fun p => p.1 = c), owners.find? (fun o => o.1 = c) with
  | some p, _ => p.2
  | none, some o => (mode >>> o.2) &&& 7
  | none, none => if c = 'X' && mode &&& 73 ≠ 0 then 1 else 0

/-- Permissions after a sign has been carried out for some owners. -/
def afterSign (sign : Char) (who bits mode : Nat) : Nat :=
  let kept := if sign = '+' then mode else mode - (mode &&& (who * if sign = '=' then 7 else bits))
  if sign = '-' then kept else kept ||| (who * bits)

/-- Whether a character says what is done with permissions. -/
def isSign (c : Char) : Bool := c = '+' || c = '-' || c = '='

/-- Permissions after clauses have been carried out: each names owners, and goes on with signs and
letters.  A clause that is nothing but owners changes nothing, and ends the row. -/
def changed (first : Nat) : Nat → Nat → Nat → List Char → Option Nat
  | 0, _, _, _ => none
  | _ + 1, _, mode, [] => some mode
  | fuel + 1, who, mode, cs =>
    let names := cs.takeWhile "augo".toList.contains
    let who := (names.map ownersNamed).foldl (· ||| ·) who
    let who := if who = 0 then ownersNamed 'a' else who
    match cs.drop names.length with
    | [] => some mode
    | sign :: cs =>
      if !isSign sign then none
      else
        let letters := cs.takeWhile "rwxugoXs".toList.contains
        let bits := (letters.map (permittedBy first)).foldl (· ||| ·) 0
        let mode := afterSign sign who bits mode
        match cs.drop letters.length with
        | [] => some mode
        | ',' :: cs => changed first fuel 0 mode cs
        | c :: cs => if isSign c then changed first fuel who mode (c :: cs) else none

/-- Writes or sets the permissions that new files lack. -/
def umask : Builtin := fun args => do
  let (given, operands) ← plainSwitches ['S'] args
  let lacking := (← get).umask
  match operands with
  | [] => do
    writeText 1 ((if given.contains 'S' then symbolic (511 - lacking) else octal lacking) ++ "\n")
    finish 0
  | m :: _ =>
    if m.head?.any (fun d => 0x30 ≤ d && d ≤ 0x39) then
      if m.all (fun d => 0x30 ≤ d && d ≤ 0x37) then
        let n := m.foldl (fun n d => n * 8 + (d.toNat - 0x30)) 0
        modify fun s => { s with umask := n % 512 }
        finish 0
      else refuse 2 ("Illegal number: " ++ textOf m)
    else
      let clauses := (textOf m).toList
      match changed (511 - lacking) (clauses.length + 1) 0 (511 - lacking) clauses with
      | some mode => do
        modify fun s => { s with umask := 511 - mode }
        finish 0
      | none => refuse 2 ("Illegal mode: " ++ textOf m)

end BlockFlow.Shell.Builtin
