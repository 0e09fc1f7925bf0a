import BlockFlow.Files.Tree

/-! # What differs between two file trees -/

namespace BlockFlow.FileTree

/-- The entries of a tree that another one does not have, directories before what is in them. -/
def entriesNotIn (t old : FileTree) : List (Location × Entry) :=
  t.entries.toList.filter (fun e => old.get? e.1 ≠ some e.2)

/-- The locations of a tree that are free in another one, directories after what is in them. -/
def locationsNotIn (t new : FileTree) : List Location :=
  (t.entries.keys.filter (fun l => (new.get? l).isNone)).reverse

/-- The absolute path of a location. -/
def pathTo (l : Location) : Path := "/" ++ "/".intercalate l

end BlockFlow.FileTree
