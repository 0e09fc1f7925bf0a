import BlockFlow.Shell.Pattern

/-! # Orders of names

Names can be put in the order of their bytes, of their endings, or of the versions in them.  In a
version, runs of digits count as numbers, letters come before other signs, and a tilde comes before
everything; endings such as `.tar.gz` count only between names that are alike otherwise.

* `byExtension`  compares endings
* `byVersion`    compares versions -/

namespace BlockFlow.Shell.Utilities

/-- The end of a name from its last dot on. -/
def extension (name : Bytes) : Bytes :=
  if name.contains 0x2E then 0x2E :: (name.reverse.takeWhile (· ≠ 0x2E)).reverse else []

/-- Compares names by their bytes. -/
def byBytes (a b : Bytes) : Ordering := compareOfLessAndEq a b

/-- Compares names by their endings. -/
def byExtension (a b : Bytes) : Ordering := byBytes (extension a) (extension b)

namespace Version

/-- Whether a byte is a digit. -/
def isDigit (b : UInt8) : Bool := 0x30 ≤ b && b ≤ 0x39

/-- Whether a byte is a letter. -/
def isLetter (b : UInt8) : Bool := (0x41 ≤ b && b ≤ 0x5A) || (0x61 ≤ b && b ≤ 0x7A)

/-- What the first byte of a text counts. -/
def weight : Bytes → Int
  | [] => -1
  | b :: _ =>
    if isDigit b then 0
    else if isLetter b then b.toNat
    else if b = 0x7E then -2
    else b.toNat + 256

/-- Compares two texts, in at most so many steps. -/
def order : Nat → Bytes → Bytes → Ordering
  | 0, _, _ => .eq
  | _ + 1, [], [] => .eq
  | steps + 1, a, b =>
    if a.head?.any (!isDigit ·) || b.head?.any (!isDigit ·) then
      (compare (weight a) (weight b)).then (order steps (a.drop 1) (b.drop 1))
    else
      let digits (t : Bytes) : Bytes := (t.takeWhile isDigit).dropWhile (· = 0x30)
      ((compare (digits a).length (digits b).length).then (byBytes (digits a) (digits b))).then
        (order steps (a.dropWhile isDigit) (b.dropWhile isDigit))

/-- How many bytes the endings at the beginning of a text have, in at most so many steps. -/
def endings : Nat → Bytes → Nat
  | 0, _ => 0
  | steps + 1, t =>
    match t with
    | 0x2E :: b :: rest =>
      if isLetter b || b = 0x7E then
        let more := rest.takeWhile (fun c => isLetter c || isDigit c || c = 0x7E)
        2 + more.length + endings steps (rest.drop more.length)
      else 0
    | _ => 0

/-- A text without the endings at its end, in at most so many steps; `done` has been read and
`last` is what is left if only endings follow. -/
def stemFrom : Nat → Bytes → Bytes → Bytes → Bytes
  | 0, _, last, _ => last
  | _ + 1, _, last, [] => last
  | steps + 1, done, _, b :: rest =>
    let stem := done ++ [b]
    let n := endings rest.length rest
    stemFrom steps (stem ++ rest.take n) stem (rest.drop n)

/-- A name without its endings. -/
def stem (name : Bytes) : Bytes := stemFrom name.length [] [] name

/-- Compares two texts. -/
def compare (a b : Bytes) : Ordering := order (a.length + b.length) a b

/-- The place of a name among those that come first. -/
def rank (name : Bytes) : Nat :=
  match name with
  | [] => 0
  | [0x2E] => 1
  | [0x2E, 0x2E] => 2
  | 0x2E :: _ => 3
  | _ => 4

end Version

/-- Compares names by the versions in them. -/
def byVersion (a b : Bytes) : Ordering :=
  (Ord.compare (Version.rank a) (Version.rank b)).then
    ((Version.compare (Version.stem a) (Version.stem b)).then (Version.compare a b))

end BlockFlow.Shell.Utilities
