import BlockFlow.Shell.Pattern

/-! # Columns

Labels are laid out on lines that are not longer than a width: in columns, each of which is as wide
as its widest label and two blanks, or one after the other with signs between them.  Between columns
there are tabs as far as they fit.

* `inColumns`  lays labels out in columns, which go down or across
* `inSequence` lays labels out with signs between them -/

namespace BlockFlow.Shell.Utilities

/-- Something to be laid out, and how many columns of a screen it takes. -/
structure Label where
  text : Bytes
  width : Nat
  deriving DecidableEq, Inhabited, Repr

/-- The lines that labels are laid out on. -/
structure Page where
  /-- How long lines may be; they may have any length if it is zero. -/
  width : Nat := 80
  /-- The distance between tabs; there are none if it is zero. -/
  tab : Nat := 8
  /-- The byte that ends a line. -/
  lineEnd : UInt8 := 0x0A
  deriving DecidableEq, Inhabited, Repr

namespace Page

/-- The width of the narrowest column. -/
def narrowest : Nat := 3

/-- What leads from one column of a screen to another one, in at most so many steps. -/
def indent (p : Page) (goal : Nat) : Nat → Nat → Bytes
  | 0, _ => []
  | steps + 1, at_ =>
    if goal ≤ at_ then []
    else if p.tab ≠ 0 && (at_ + 1) / p.tab < goal / p.tab then
      0x09 :: p.indent goal steps (at_ + (p.tab - at_ % p.tab))
    else 0x20 :: p.indent goal steps (at_ + 1)

/-- The column that a label gets, of so many columns, if they go down or across. -/
def columnOf (down : Bool) (count columns i : Nat) : Nat :=
  if down then i / ((count + columns - 1) / columns) else i % columns

/-- The widths of so many columns. -/
def widths (down : Bool) (columns : Nat) (labels : List Label) : Array Nat :=
  labels.zipIdx.foldl (fun ws l =>
    let column := columnOf down labels.length columns l.2
    let width := l.1.width + if column + 1 = columns then 0 else 2
    ws.modify column (max width)) (Array.replicate columns narrowest)

/-- Whether columns fit on a line; those that are as narrow as possible always do. -/
def fits (p : Page) (ws : Array Nat) : Bool :=
  ws.all (· = narrowest) || ws.foldl (· + ·) 0 < p.width

/-- The number of columns that labels are laid out in, at most so many. -/
def columns (p : Page) (down : Bool) (labels : List Label) : Nat → Nat
  | 0 => 1
  | n + 1 => if p.fits (widths down (n + 1) labels) then n + 1 else p.columns down labels n

/-- The most columns that may fit. -/
def mostColumns (p : Page) (count : Nat) : Nat :=
  let most := p.width / narrowest + if p.width % narrowest ≠ 0 then 1 else 0
  if 0 < most then min most count else count

/-- A line of labels in columns of these widths, from a column of a screen on. -/
def row (p : Page) : Nat → List Nat → List Label → Bytes
  | _, _, [] => [p.lineEnd]
  | _, _, [l] => l.text ++ [p.lineEnd]
  | at_, ws, l :: ls =>
    let next := at_ + ws.headD 0
    l.text ++ p.indent next next (at_ + l.width) ++ p.row next (ws.drop 1) ls

/-- Labels in columns. -/
def inColumns (p : Page) (down : Bool) (labels : List Label) : Bytes :=
  let columns := p.columns down labels (p.mostColumns labels.length)
  let ws := (widths down columns labels).toList
  let rows := (labels.length + columns - 1) / columns
  (List.range rows).flatMap fun r =>
    let here := labels.zipIdx.filter (fun l => (if down then l.2 % rows else l.2 / columns) = r)
    p.row 0 ws (here.map (·.1))

/-- Labels with a sign after each but the last one. -/
def inSequence (p : Page) (sign : UInt8) : Nat → List Label → Bytes
  | _, [] => [p.lineEnd]
  | _, [l] => l.text ++ [p.lineEnd]
  | at_, l :: next :: ls =>
    let at_ := at_ + l.width
    let length := if p.width = 0 then 0 else next.width
    if p.width = 0 || at_ + length + 2 < p.width then
      l.text ++ [sign, 0x20] ++ p.inSequence sign (at_ + 2) (next :: ls)
    else l.text ++ [sign, p.lineEnd] ++ p.inSequence sign 0 (next :: ls)

end Page

end BlockFlow.Shell.Utilities
