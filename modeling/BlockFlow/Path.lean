/-! # Paths as text

A path is text whose names are separated by slashes.  Joining never normalises: it only adds the
slash that is missing.  `names` is the view without separators, in which a single dot and a doubled
slash count for nothing:

* `fileName?`   the last name, unless it is `..`
* `absolute?`   the path from the root, given the directory that relative paths start from -/

namespace BlockFlow

/-- A path in a file system. -/
abbrev Path := String

namespace Path

/-- The pieces of a text between separators, empty ones included. -/
def splitOn (sep : Char) : List Char → List (List Char)
  | [] => [[]]
  | c :: cs =>
    if c = sep then [] :: splitOn sep cs
    else
      match splitOn sep cs with
      | [] => [[c]]
      | piece :: pieces => (c :: piece) :: pieces

/-- The pieces of a path between slashes, empty ones included. -/
def pieces (p : Path) : List String := (splitOn '/' p.toList).map String.ofList

/-- The names that a path goes through. -/
def names (p : Path) : List String := p.pieces.filter (fun n => n ≠ "" && n ≠ ".")

/-- Whether a path starts at the root. -/
def isAbsolute (p : Path) : Bool := p.toList.head? = some '/'

/-- Whether a path ends with a slash. -/
def endsWithSlash (p : Path) : Bool := p.toList.getLast? = some '/'

/-- The path `b` seen from the directory `a`. -/
def join (a b : Path) : Path :=
  if isAbsolute b then b
  else if a = "" || endsWithSlash a then a ++ b
  else a ++ "/" ++ b

/-- The last name of a path, unless that is `..` or there is none. -/
def fileName? (p : Path) : Option String :=
  match p.names.getLast? with
  | some ".." => none
  | name => name

/-- Whether a path starts with exactly two slashes. -/
def startsWithTwoSlashes (p : Path) : Bool :=
  match p.toList with
  | '/' :: '/' :: '/' :: _ => false
  | '/' :: '/' :: _ => true
  | _ => false

/-- The path from the root, seen from the directory `base` if it is relative.  Dots and doubled
slashes go, a last slash stays, and so do two slashes at the start.  The empty path has none. -/
def absolute? (base p : Path) : Option Path :=
  if p = "" then none
  else
    let start :=
      if startsWithTwoSlashes p then "//" else if isAbsolute p then "/" else base
    let full := p.names.foldl join start
    some (if endsWithSlash p then join full "" else full)

end Path

end BlockFlow
