import BlockFlow.Files.Permissions
import BlockFlow.Shell.Printf
import BlockFlow.Shell.Utilities.Basic
import BlockFlow.Shell.Utilities.Columns
import BlockFlow.Shell.Utilities.Ordering

/-! # Listing files

`ls` lists what its operands name, and what is in those that are directories.  `Listing` holds what
the switches say, and `Item` what is known about something that is listed.

* `Listing.switched`  takes a switch
* `Listing.label`     is an item as it is written
* `Listing.operands`  lists operands -/

namespace BlockFlow.Shell.Utilities

/-! ## What is wanted -/

/-- How items are arranged. -/
inductive Arrangement where
  /-- One on a line, with all that is known about them. -/
  | long
  | commas
  /-- In columns that go down or across. -/
  | columns (down : Bool)
  | lines
  deriving DecidableEq, Inhabited, Repr

/-- What decides the order of items. -/
inductive Sorting where
  | none
  | time
  | size
  | extension
  | version
  | width
  | name
  deriving DecidableEq, Inhabited, Repr

/-- Which signs tell of the kind of an item. -/
inductive Indicators where
  | none
  | slash
  | fileType
  | classify
  deriving DecidableEq, Inhabited, Repr

/-- Which links are followed. -/
inductive Following where
  | never
  | operands
  /-- Links to directories that are operands. -/
  | directories
  | always
  deriving DecidableEq, Inhabited, Repr

/-- Which names are left out. -/
inductive Ignoring where
  | hidden
  /-- Only those of the directory itself and the one above it. -/
  | dots
  | nothing
  deriving DecidableEq, Inhabited, Repr

/-- How `ls` lists. -/
structure Listing where
  arrangement? : Option Arrangement := none
  sorting? : Option Sorting := none
  style? : Option Style := none
  following? : Option Following := none
  ignoring : Ignoring := .hidden
  /-- Patterns of names that are left out. -/
  ignored : List Bytes := []
  /-- Patterns of names that are left out like hidden ones. -/
  unseen : List Bytes := []
  indicators : Indicators := .none
  /-- Whether directories are listed by their names. -/
  asFiles : Bool := false
  directoriesFirst : Bool := false
  reversed : Bool := false
  recursive : Bool := false
  /-- Whether a question mark stands for what cannot be printed. -/
  masked : Bool := false
  numbers : Bool := false
  blocks : Bool := false
  context : Bool := false
  owner : Bool := true
  group : Bool := true
  author : Bool := false
  /-- Whether owners and groups are numbers. -/
  numeric : Bool := false
  /-- The base of units in which sizes are written. -/
  units : Option Nat := none
  timed : Bool := false
  timeStyle : Option Bytes := none
  width? : Option Nat := none
  tab? : Option Nat := none
  page : Page := {}
  deriving Inhabited

/-- The whole number that a text means, written with a base as programs do; one that is too great
counts as zero. -/
def wholeNumber? (text : Bytes) : Option Nat :=
  let text := text.dropWhile isBlank
  let text := if text.head? = some 0x2B then text.drop 1 else text
  let (base, digits) := match text with
    | 0x30 :: x :: d :: ds =>
      if (x = 0x78 || x = 0x58) && Printf.isDigitIn 16 d then (16, d :: ds) else (8, x :: d :: ds)
    | 0x30 :: ds => (8, ds)
    | ds => (10, ds)
  if text.isEmpty || !digits.all (Printf.isDigitIn base) then none
  else
    let n := Printf.valueIn base digits
    some (if greatestAmount / 2 < n then 0 else n)

namespace Listing

/-- Words for the ways to arrange items. -/
def arrangements : List (List String × Arrangement) := [
  (["verbose", "long"], .long), (["commas"], .commas),
  (["horizontal", "across"], .columns false), (["vertical"], .columns true),
  (["single-column"], .lines)]

/-- Words for the orders. -/
def sortings : List (List String × Sorting) := [
  (["none"], .none), (["time"], .time), (["size"], .size), (["extension"], .extension),
  (["version"], .version), (["width"], .width)]

/-- Words for the times that may count. -/
def times : List (List String) :=
  [["atime", "access", "use"], ["ctime", "status"], ["birth", "creation"]]

/-- Words for the cases in which something is done: always, never, and on a terminal. -/
def cases : List (List String) :=
  [["always", "yes", "force"], ["never", "no", "none"], ["auto", "tty", "if-tty"]]

/-- Words for the signs that tell of a kind. -/
def indicatorWords : List (List String × Indicators) :=
  [(["none"], .none), (["slash"], .slash), (["file-type"], .fileType), (["classify"], .classify)]

/-- What the word after a switch stands for. -/
def chosen {α : Type} [Inhabited α] (meanings : List (List String × α)) (switch : String)
    (value : Bytes) : Sh α := do
  let w ← choice (meanings.map (·.1)) switch value
  return ((meanings.find? (fun m => m.1.head? = some w)).map (·.2)).getD default

/-- Whether something is done in the cases that a value names, or always. -/
def isWanted (switch : String) (value : Option Bytes) : Sh Bool := do
  match value with
  | some v => return (← choice cases switch v) = "always"
  | none => return true

/-- Puts items on lines, unless all about them is wanted. -/
def onLines (l : Listing) : Listing :=
  if l.arrangement? = some .long then l else { l with arrangement? := some .lines }

/-- Takes a switch that has a value. -/
def valued (l : Listing) (name : String) (value : Bytes) : Sh Listing := do
  match name with
  | "width" =>
    match wholeNumber? value with
    | some n => return { l with width? := some n }
    | none => do
      report ("invalid line width: " ++ cited value)
      quit 2
  | "tabsize" =>
    match wholeNumber? value with
    | some n => return { l with tab? := some n }
    | none => do
      report ("invalid tab size: " ++ cited value)
      quit 2
  | "ignore" => return { l with ignored := value :: l.ignored }
  | "hide" => return { l with unseen := value :: l.unseen }
  | "sort" => return { l with sorting? := some (← chosen sortings "--sort" value) }
  | "format" => return { l with arrangement? := some (← chosen arrangements "--format" value) }
  | "indicator-style" =>
    return { l with indicators := ← chosen indicatorWords "--indicator-style" value }
  | "quoting-style" =>
    let styles := Style.names.map (fun s => ([s.1], s.2))
    return { l with style? := some (← chosen styles "--quoting-style" value) }
  | "time" => do
    discard (choice times "--time" value)
    return { l with timed := true }
  | "time-style" => return { l with timeStyle := some value }
  | "block-size" =>
    match amount? "kKmMGTPEZY0" value with
    | .ok _ => return l
    | .error _ => do
      report ("invalid --block-size argument '" ++ textOf value ++ "'")
      quit 2
  | _ => return l

/-- Takes a switch that has no value. -/
def plain (l : Listing) (name : String) : Listing :=
  match name with
  | "all" => { l with ignoring := .nothing }
  | "almost-all" => { l with ignoring := .dots }
  | "escape" => { l with style? := some .escape }
  | "c" | "u" => { l with timed := true }
  | "directory" => { l with asFiles := true }
  | "f" => { l with
      ignoring := .nothing
      sorting? := some .none
      blocks := false
      arrangement? := if l.arrangement? = some .long then none else l.arrangement? }
  | "file-type" => { l with indicators := .fileType }
  | "g" => { l with arrangement? := some .long, owner := false }
  | "human-readable" => { l with units := some 1024 }
  | "si" => { l with units := some 1000 }
  | "inode" => { l with numbers := true }
  | "l" => { l with arrangement? := some .long }
  | "full-time" =>
    { l with arrangement? := some .long, timeStyle := some (bytesOf "full-iso") }
  | "m" => { l with arrangement? := some .commas }
  | "numeric-uid-gid" => { l with arrangement? := some .long, numeric := true }
  | "o" => { l with arrangement? := some .long, group := false }
  | "p" => { l with indicators := .slash }
  | "hide-control-chars" => { l with masked := true }
  | "show-control-chars" => { l with masked := false }
  | "reverse" => { l with reversed := true }
  | "size" => { l with blocks := true }
  | "t" => { l with sorting? := some .time }
  | "v" => { l with sorting? := some .version }
  | "x" => { l with arrangement? := some (.columns false) }
  | "ignore-backups" =>
    { l with ignored := [bytesOf ".*~", bytesOf "*~"] ++ l.ignored }
  | "C" => { l with arrangement? := some (.columns true) }
  | "no-group" => { l with group := false }
  | "dereference-command-line" => { l with following? := some .operands }
  | "dereference-command-line-symlink-to-dir" => { l with following? := some .directories }
  | "dereference" => { l with following? := some .always }
  | "literal" => { l with style? := some .literal }
  | "quote-name" => { l with style? := some .string }
  | "recursive" => { l with recursive := true }
  | "S" => { l with sorting? := some .size }
  | "U" => { l with sorting? := some .none }
  | "X" => { l with sorting? := some .extension }
  | "1" => l.onLines
  | "author" => { l with author := true }
  | "group-directories-first" => { l with directoriesFirst := true }
  | "context" => { l with context := true }
  | "zero" => { l.onLines with
      masked := false
      style? := some .literal
      page := { l.page with lineEnd := 0 } }
  | _ => l

/-- Takes what a switch says. -/
def switched (l : Listing) (g : Given) : Sh Listing := do
  match g.name, g.value with
  | "classify", value => do
    return if ← isWanted "--classify" value then { l with indicators := .classify } else l
  | "color", value => do
    discard (isWanted "--color" value)
    return l
  | "hyperlink", value => do
    discard (isWanted "--hyperlink" value)
    return l
  | name, some value => l.valued name value
  | name, none => return l.plain name

/-- How items are arranged. -/
def arrangement (l : Listing) : Arrangement := l.arrangement?.getD .lines

/-- Whether items are laid out on lines of some width. -/
def isLaidOut (l : Listing) : Bool := l.arrangement ≠ .long && l.arrangement ≠ .lines

/-- What decides the order of items. -/
def sorting (l : Listing) : Sorting :=
  l.sorting?.getD (if l.timed && l.arrangement ≠ .long then .time else .name)

/-- The style of names. -/
def style (l : Listing) : Style := l.style?.getD .literal

/-- Which links are followed. -/
def following (l : Listing) : Following :=
  l.following?.getD (if l.asFiles || l.indicators = .classify || l.arrangement = .long
    then .never else .directories)

/-- Takes a number from a variable, if it is there. -/
def fromVariable (name what : String) : Sh (Option Nat) := do
  match ← seen? name with
  | none => return none
  | some value =>
    if value.isEmpty && name = "COLUMNS" then return none
    else
      match wholeNumber? value with
      | some n => return some n
      | none => do
        report ("ignoring invalid " ++ what ++ " in environment variable " ++ name ++ ": " ++
          cited value)
        return none

/-- The words for the styles of times. -/
def timeStyles : List (List String) := [["full-iso"], ["long-iso"], ["iso"], ["locale"]]

/-- Refuses a style of times that there is none of. -/
def checkTimeStyle (value : Bytes) : Sh Unit := do
  match if value.head? = some 0x2B then .ok "" else choice? timeStyles value with
  | .ok _ => return
  | .error kind => do
    report (kind ++ " argument " ++ cited value ++ " for 'time style'")
    writeText 2 ("Valid arguments are:\n" ++
      String.join (timeStyles.map (fun w => "  - [posix-]" ++ w.headD "" ++ "\n")) ++
      "  - +FORMAT (e.g., +%H:%M) for a 'date'-style format\n")
    seeHelp 2

/-- Takes what the switches leave open. -/
def settled (l : Listing) : Sh Listing := do
  let mut page := l.page
  if l.isLaidOut then
    let width ← match l.width? with
      | some n => pure (some n)
      | none => fromVariable "COLUMNS" "width"
    let tab ← match l.tab? with
      | some n => pure (some n)
      | none => fromVariable "TABSIZE" "tab size"
    page := { page with width := width.getD 80, tab := tab.getD 8 }
  if l.arrangement = .long then (l.timeStyle.map checkTimeStyle).getD (return)
  let named ← if l.style?.isSome then pure none else seen? "QUOTING_STYLE"
  match named with
  | none => return { l with page }
  | some value =>
    match Style.names.find? (fun s => s.1 = textOf value) with
    | some s => return { l with page, style? := some s.2 }
    | none => do
      report ("ignoring invalid value of environment variable QUOTING_STYLE: " ++ cited value)
      return { l with page }

end Listing

/-! ## Items -/

/-- Something that is listed. -/
structure Item where
  name : Bytes
  kind : Kind
  /-- Whether it could be looked at. -/
  known : Bool := true
  /-- Where it stands, if it is one of the files of the run. -/
  location : Option Location := none
  mode : Nat := 0
  size : Nat := 0
  links : Nat := 1
  number : Nat := 0
  /-- Where it leads to if it is a link. -/
  target : Option Bytes := none
  /-- What is there. -/
  targetKind : Option Kind := none
  deriving Inhabited

namespace Item

/-- Whether an item is a directory. -/
def isDirectory (i : Item) : Bool := i.kind = .directory

/-- How many blocks an item takes, of so many bytes each. -/
def blocks (i : Item) : Nat :=
  match i.kind with
  | .file size => (size + 4095) / 4096 * 4
  | .directory => 4
  | _ => 0

/-- The sign that tells of a kind. -/
def sign (indicators : Indicators) (kind : Option Kind) (mode : Nat) : Bytes :=
  match kind, indicators with
  | _, .none => []
  | some .directory, _ => [0x2F]
  | _, .slash => []
  | some .link, _ => [0x40]
  | some .pipe, _ => [0x7C]
  | some (.file _), .classify => if mode &&& 0o111 ≠ 0 then [0x2A] else []
  | _, _ => []

end Item

namespace Listing

/-- Whether the kinds of items matter. -/
def needsKinds (l : Listing) : Bool :=
  l.recursive || l.indicators ≠ .none || l.directoriesFirst || l.arrangement = .long ||
    l.blocks || l.numbers || l.context || l.sorting = .time || l.sorting = .size

/-- How many directories are in a directory. -/
def directoriesIn (files : FileTree) (at_ : Location) : Nat :=
  ((files.below at_).filter (fun m => files.get? m = some .directory)).length

/-- The item at a path, under a name. -/
def itemAt (l : Listing) (follow : Bool) (path name : Bytes) (kind : Kind) : Sh Item := do
  let files ← files
  let location := (files.walk follow (← absolute path)).toOption
  let found : Item := { name, kind, location }
  match location.bind (fun m => (files.get? m).map (fun e => (m, e))) with
  | none => return found
  | some (m, e) =>
    let names := (files.namesOf m).map (fun n => files.entries.keys.idxOf n)
    let found := { found with
      mode := files.mode m
      links := (files.namesOf m).length
      number := names.foldl min (files.entries.size) + 2 }
    match e with
    | .file content => return { found with size := content.size }
    | .directory => return { found with size := 4096, links := 2 + directoriesIn files m }
    | .link target => do
      let wanted := l.arrangement = .long || l.directoriesFirst
      let targetKind ← if wanted then do pure (← look true path).toOption else pure none
      return { found with
        size := target.utf8ByteSize, target := some (bytesOf target), targetKind }

/-- Says that something cannot be looked at. -/
def cannotAccess (path : Bytes) (e : FileError) : Sh Unit :=
  report ("cannot access " ++ inQuotes path ++ ": " ++ e.reason)

/-- The item that is an operand, if it can be looked at. -/
def operandItem? (l : Listing) (f : Bytes) : Sh (Option Item) := do
  let itself ← look false f
  let there ← look true f
  let follow : Bool := match l.following, there with
    | .never, _ => false
    | .directories, .ok k => k = .directory
    | .directories, .error e => e ≠ .notFound && e ≠ .filesystemLoop
    | _, _ => true
  match if follow then there else itself with
  | .ok k => return some (← l.itemAt follow f f k)
  | .error e => do
    cannotAccess f e
    return none

/-- The item that stands in a directory under a name, and the status of looking at it. -/
def itemIn (l : Listing) (d name : Bytes) : Sh (Item × Nat) := do
  let path := below d name
  let itself := (← look false path).toOption.getD .link
  if l.following = .always && l.needsKinds then
    match ← look true path with
    | .ok k => return (← l.itemAt true path name k, 0)
    | .error e => do
      cannotAccess (if d = [0x2E] then name else path) e
      return ({ name, kind := itself, known := false }, 1)
  else return (← l.itemAt false path name itself, 0)

/-! ## Orders -/

/-- Compares items. -/
def order (l : Listing) (a b : Item) : Ordering :=
  let byName := byBytes a.name b.name
  match l.sorting with
  | .size => (compare b.size a.size).then byName
  | .extension => (byExtension a.name b.name).then byName
  | .version => (byVersion a.name b.name).then byName
  | .width =>
    let width (i : Item) : Nat := (bytesOf (l.style.quote [] i.name)).countP isPrintable
    (compare (width a) (width b)).then byName
  | _ => byName

/-- Whether an item leads to a directory. -/
def isDirectoryLike (i : Item) : Bool := i.isDirectory || i.targetKind = some .directory

/-- Items in order. -/
def ordered (l : Listing) (items : List Item) : List Item :=
  let le (a b : Item) : Bool :=
    let o := if l.reversed then l.order b a else l.order a b
    if l.directoriesFirst && isDirectoryLike a ≠ isDirectoryLike b then isDirectoryLike a
    else o ≠ .gt
  if l.sorting = .none then items else items.mergeSort le

/-! ## Writing -/

/-- What all items that are written together have in common: widths, and whether the name of any of
them is in quotes. -/
structure Frame where
  number : Nat := 0
  blocks : Nat := 0
  links : Nat := 0
  owner : Nat := 0
  size : Nat := 0
  anyQuoted : Bool := false

/-- A text after so many blanks that it has a width. -/
def padded (width : Nat) (text : String) : String :=
  String.ofList (List.replicate (width - text.length) ' ') ++ text

/-- A size with a unit. -/
def humanSize (base n : Nat) : String :=
  if n < base then toString n
  else
    let power := ((List.range 9).filter (fun k => Nat.pow base k ≤ n)).getLastD 0
    let power := if Nat.pow base (power + 1) < n + Nat.pow base power then power + 1 else power
    let unit := Nat.pow base power
    let letters := if base = 1000 then " kMGTPEZY" else " KMGTPEZY"
    let letter := String.singleton (letters.toList.getD power 'Y')
    let tenths := (n * 10 + unit - 1) / unit
    if tenths < 100 then toString (tenths / 10) ++ "." ++ toString (tenths % 10) ++ letter
    else toString ((n + unit - 1) / unit) ++ letter

/-- A number of blocks, or what so many blocks come to. -/
def blocksText (l : Listing) (n : Nat) : String :=
  match l.units with
  | some base => humanSize base (n * 1024)
  | none => toString n

/-- A size. -/
def sizeText (l : Listing) (n : Nat) : String :=
  match l.units with
  | some base => humanSize base n
  | none => toString n

/-- Text about an item, or a question mark. -/
def ifKnown (i : Item) (text : String) : String := if i.known then text else "?"

/-- What an owner is called, or a group. -/
def ownerText (l : Listing) : String := if l.numeric then "0" else "root"

/-- The characters that are quoted besides those that always are. -/
def alsoQuoted (l : Listing) : List Char :=
  (if l.style = .escape then [' '] else []) ++
    match l.indicators with
    | .fileType => ['*', '=', '>', '@', '|']
    | .classify => ['=', '>', '@', '|']
    | _ => []

/-- Whether names without quotes stand below the inside of those with quotes. -/
def isAligned (l : Listing) : Bool :=
  let isColumns := match l.arrangement with
    | .columns _ => l.page.width ≠ 0
    | a => a = .long
  isColumns && [Style.shell, Style.shellEscape, Style.stringIfNeeded].contains l.style

/-- The frame of items. -/
def frame (l : Listing) (items : List Item) : Frame :=
  let widest (f : Item → String) : Nat := (items.map (fun i => (f i).length)).foldl max 0
  { number := widest (fun i => ifKnown i (toString i.number))
    blocks := widest (fun i => ifKnown i (l.blocksText i.blocks))
    links := widest (fun i => ifKnown i (toString i.links))
    owner := widest (fun i => ifKnown i l.ownerText)
    size := widest (fun i => ifKnown i (l.sizeText i.size))
    anyQuoted := l.isAligned && items.any (fun i => l.style.isNeeded l.alsoQuoted i.name) }

/-- A name in the style of the listing. -/
def nameText (l : Listing) (also : List Char) (name : Bytes) : Bytes :=
  let bytes := bytesOf (l.style.quote also name)
  if l.masked then bytes.map (fun b => if isPrintable b then b else 0x3F) else bytes

/-- A name as it is listed, and how many columns it takes. -/
def nameLabel (l : Listing) (f : Frame) (name : Bytes) : Label :=
  let text := l.nameText l.alsoQuoted name
  let pad := f.anyQuoted && !l.style.isNeeded l.alsoQuoted name
  let text := if pad then 0x20 :: text else text
  ⟨text, text.countP isPrintable⟩

/-- An item as it is listed, unless all about it is wanted. -/
def label (l : Listing) (f : Frame) (i : Item) : Label :=
  let width (n : Nat) : Nat := if l.arrangement = .commas then 0 else n
  let column (wanted : Bool) (n : Nat) (text : String) : String :=
    if wanted then padded (width n) (ifKnown i text) ++ " " else ""
  let before := column l.numbers f.number (toString i.number) ++
    column l.blocks f.blocks (l.blocksText i.blocks) ++ column l.context 1 "?"
  let name := l.nameLabel f i.name
  let sign := Item.sign l.indicators (some i.kind) i.mode
  ⟨bytesOf before ++ name.text ++ sign, before.length + name.width + sign.length⟩

/-- The time of an item. -/
def timeText (l : Listing) : String :=
  match l.timeStyle with
  | some (0x2B :: format) => textOf (format.takeWhile (· ≠ 0x0A))
  | some style =>
    match textOf style with
    | "full-iso" => "1970-01-01 00:00:00.000000000 +0000"
    | "long-iso" => "1970-01-01 00:00"
    | "iso" => "1970-01-01 "
    | _ => "Jan  1  1970"
  | none => "Jan  1  1970"

/-- The letter of a kind. -/
def kindLetter : Kind → Char
  | .file _ => '-'
  | .directory => 'd'
  | .link => 'l'
  | .device => 'c'
  | .pipe => 'p'

/-- The line of an item with all that is known about it. -/
def longLine (l : Listing) (f : Frame) (i : Item) : Bytes :=
  let column (wanted : Bool) (width : Nat) (text : String) : String :=
    if wanted then padded width (ifKnown i text) ++ " " else ""
  let who (wanted : Bool) : String :=
    if wanted then
      let text := ifKnown i l.ownerText
      text ++ padded (f.owner + 1 - text.length) ""
    else ""
  let mode := if i.known then Permissions.letters (kindLetter i.kind) i.mode
    else String.ofList (kindLetter i.kind :: List.replicate 9 '?')
  let before := column l.numbers f.number (toString i.number) ++
    column l.blocks f.blocks (l.blocksText i.blocks) ++ mode ++ " " ++
    column true f.links (toString i.links) ++ who l.owner ++ who l.group ++ who l.author ++
    column l.context 1 "?" ++ column true f.size (l.sizeText i.size) ++
    column true (if i.known then 0 else l.timeText.length) l.timeText
  let name := (l.nameLabel f i.name).text
  match i.target with
  | some target =>
    let there := if l.indicators = .none then []
      else Item.sign l.indicators i.targetKind 0
    bytesOf before ++ name ++ bytesOf " -> " ++ l.nameText l.alsoQuoted target ++ there ++
      [l.page.lineEnd]
  | none => bytesOf before ++ name ++ Item.sign l.indicators (some i.kind) i.mode ++
      [l.page.lineEnd]

/-- Adds to what is written when the program ends. -/
def put (bytes : Bytes) : Sh Unit := modify fun s => { s with unwritten := s.unwritten ++ bytes }

/-- Writes items. -/
def write (l : Listing) (f : Frame) (items : List Item) : Sh Unit := do
  let labels := items.map (l.label f)
  if items.isEmpty then return
  else
    match l.arrangement with
    | .long => put (items.flatMap (l.longLine f))
    | .lines => put (labels.flatMap (fun b => b.text ++ [l.page.lineEnd]))
    | .commas => put (l.page.inSequence 0x2C 0 labels)
    | .columns down =>
      put (if l.page.width = 0 then l.page.inSequence 0x20 0 labels
        else l.page.inColumns down labels)

/-! ## Directories and operands -/

/-- Whether a pattern matches a name; a dot at its beginning has to be there in the pattern. -/
def isMatched (pattern name : Bytes) : Bool :=
  (name.head? ≠ some 0x2E || pattern.head? = some 0x2E) &&
    Pattern.accepts (Pattern.ofMarks (marksOf false pattern)) name

/-- Whether a name is left out. -/
def isIgnored (l : Listing) (name : Bytes) : Bool :=
  let dots := name = [0x2E] || name = [0x2E, 0x2E]
  let usual := l.ignoring = .hidden
  (l.ignoring ≠ .nothing && dots) || (usual && name.head? = some 0x2E) ||
    (usual && l.unseen.any (fun p => isMatched p name)) ||
    l.ignored.any (fun p => isMatched p name)

/-- The names in a directory that are listed. -/
def namesIn (l : Listing) (d : Bytes) : Sh (List Bytes) := do
  let files ← files
  match files.walk true (← absolute d) with
  | .error _ => return []
  | .ok at_ =>
    let names := ((files.below at_).filterMap List.getLast?).map bytesOf
    return ([[0x2E], [0x2E, 0x2E]] ++ names).filter (fun n => !l.isIgnored n)

/-- Lists a directory, and the directories in it, through at most so many levels.  `titled` says
whether it has a title, and `first` that nothing stands before that; `above` are the directories in
which it is listed. -/
def directory (l : Listing) : Nat → List Location → Bool → Bool → Bytes → Sh Nat
  | 0, _, _, _, _ => return 0
  | levels + 1, above, titled, first, d => do
    let files ← files
    let place := (files.walk true (← absolute d)).toOption
    if l.recursive && above.any (fun m => place = some m) then
      report (shown d ++ ": not listing already-listed directory")
      return 2
    if !(place.all (fun l => files.permits .read l)) then
      report ("cannot open directory " ++ inQuotes d ++ ": " ++ FileError.permissionDenied.reason)
      return if above.isEmpty then 2 else 1
    if titled then
      put ((if first then [] else [0x0A]) ++ l.nameText (':' :: l.alsoQuoted) d ++ bytesOf ":\n")
    let found ← (← l.namesIn d).mapM (l.itemIn d)
    let items := l.ordered (found.map (·.1))
    let total := (items.map Item.blocks).foldl (· + ·) 0
    if l.arrangement = .long || l.blocks then
      put (bytesOf ("total " ++ l.blocksText total) ++ [l.page.lineEnd])
    l.write (l.frame items) items
    let status := (found.map (·.2)).foldl max 0
    if l.recursive then
      let inside := items.filter (fun i =>
        i.isDirectory && i.name ≠ [0x2E] && i.name ≠ [0x2E, 0x2E])
      let above := place.toList ++ above
      let statuses ← inside.mapM (fun i => l.directory levels above true false (below d i.name))
      return statuses.foldl max status
    else return status

/-- Lists operands: first files, then directories, which have titles if there is anything else. -/
def operands (l : Listing) (operands : List Bytes) : Sh Nat := do
  let found ← operands.filterMapM l.operandItem?
  let status := if found.length < operands.length then 2 else 0
  let items := l.ordered found
  let plain := if l.asFiles then items else items.filter (fun i => !i.isDirectory)
  let directories := if l.asFiles then [] else items.filter Item.isDirectory
  l.write (l.frame items) plain
  if !plain.isEmpty && !directories.isEmpty then put [0x0A]
  let titled := l.recursive || 1 < operands.length || 1 < items.length
  let levels := (← files).entries.size + 2
  let statuses ← directories.zipIdx.mapM
    (fun d => l.directory levels [] titled (d.2 = 0) d.1.name)
  return statuses.foldl max status

/-- The switches. -/
def switches : List Switch := [
  .named "all" "a", .named "escape" "b", .named "directory" "d", .named "dired" "D",
  .named "full-time", .named "group-directories-first", .named "human-readable" "h",
  .named "inode" "i", .named "kibibytes" "k", .named "numeric-uid-gid" "n",
  .named "no-group" "G", .named "hide-control-chars" "q", .named "reverse" "r",
  .named "size" "s", .named "width" "w" .always, .named "almost-all" "A",
  .named "ignore-backups" "B", .named "classify" "F" .perhaps, .named "file-type",
  .named "si", .named "dereference-command-line" "H",
  .named "dereference-command-line-symlink-to-dir", .named "hide" "" .always,
  .named "ignore" "I" .always, .named "indicator-style" "" .always,
  .named "dereference" "L", .named "literal" "N", .named "quote-name" "Q",
  .named "quoting-style" "" .always, .named "recursive" "R", .named "format" "" .always,
  .named "show-control-chars", .named "sort" "" .always, .named "tabsize" "T" .always,
  .named "time" "" .always, .named "time-style" "" .always, .named "zero",
  .named "color" "" .perhaps, .named "hyperlink" "" .perhaps, .named "block-size" "" .always,
  .named "context" "Z", .named "author"] ++ "cfglmoptuvxCSUX1".toList.map (Switch.lettered ·)

end Listing

/-- Lists files and directories. -/
def ls : Utility :=
  withChecked 2 Listing.switches (return) (fun g => discard (Listing.switched {} g)) fun a => do
    let l ← a.given.foldlM Listing.switched {}
    let l ← l.settled
    l.operands (if a.operands.isEmpty then [[0x2E]] else a.operands)

end BlockFlow.Shell.Utilities
