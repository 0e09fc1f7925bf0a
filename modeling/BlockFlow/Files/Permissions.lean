/-! # Permissions

Permissions are twelve bits: three each for the owner, the group and all others, and before those
three special ones.  A change of permissions is written as octal digits, or as clauses between
commas: whom they are for, and then signs with letters.

* `Change.parse?`  reads changes
* `Change.apply`   carries one out on the permissions of a directory
* `letters`        writes permissions -/

namespace BlockFlow.Permissions

/-- All bits. -/
def all : Nat := 0o7777

/-- The bits for reading, writing and searching. -/
def ordinary : Nat := 0o777

/-- The bits that let programs run as their owner or group. -/
def identity : Nat := 0o6000

/-- The bits of one mask without those of another. -/
def without (mode removed : Nat) : Nat := mode - (mode &&& removed)

/-- What a change takes as its bits. -/
inductive Source where
  | bits (value : Nat)
  /-- The bits that those in this mask have, for everybody. -/
  | copied (mask : Nat)
  deriving DecidableEq, Inhabited, Repr

/-- A change of permissions. -/
structure Change where
  sign : Char
  /-- The bits that may change, if that is said. -/
  affected : Option Nat
  source : Source
  /-- The bits that are named. -/
  mentioned : Nat
  deriving DecidableEq, Inhabited, Repr

/-- Whether a character is an octal digit. -/
def isOctal (c : Char) : Bool := '0' ≤ c && c < '8'

/-- The value of octal digits. -/
def octal (ds : List Char) : Nat := ds.foldl (fun n d => n * 8 + (d.toNat - '0'.toNat)) 0

/-- The bits of those whom a letter names. -/
def ofWhom? (c : Char) : Option Nat :=
  match c with
  | 'u' => some 0o4700
  | 'g' => some 0o2070
  | 'o' => some 0o1007
  | 'a' => some all
  | _ => none

/-- The ordinary bits of those whose permissions are copied. -/
def ofCopied? (c : Char) : Option Nat :=
  match c with
  | 'u' => some 0o700
  | 'g' => some 0o070
  | 'o' => some 0o007
  | _ => none

/-- The bits of a letter after a sign; all of these letters name bits of directories. -/
def ofLetter? (c : Char) : Option Nat :=
  match c with
  | 'r' => some 0o444
  | 'w' => some 0o222
  | 'x' | 'X' => some 0o111
  | 's' => some identity
  | 't' => some 0o1000
  | _ => none

/-- Whether a character is a sign of a change. -/
def isSign (c : Char) : Bool := c = '=' || c = '+' || c = '-'

namespace Change

/-- The bits that are named by letters; `X` does not count as one. -/
def mentionedBy (affected : Option Nat) (letters : List Char) : Nat :=
  let bits := ((letters.filter (· ≠ 'X')).filterMap ofLetter?).foldl (· ||| ·) 0
  bits &&& affected.getD all

/-- The change after a sign, and what follows it. -/
def afterSign? (sign : Char) (affected : Option Nat) (cs : List Char) :
    Option (Change × List Char) :=
  let digits := cs.takeWhile isOctal
  let letters := cs.takeWhile (fun c => (ofLetter? c).isSome)
  match digits, cs with
  | _ :: _, _ =>
    let rest := cs.drop digits.length
    let ends := rest.isEmpty || rest.head? = some ','
    if affected.isSome || !ends || all < octal digits then none
    else some (⟨sign, some all, .bits (octal digits), all⟩, rest)
  | [], c :: rest =>
    match ofCopied? c with
    | some mask => some (⟨sign, affected, .copied mask, mask &&& affected.getD all⟩, rest)
    | none =>
      let bits := (letters.filterMap ofLetter?).foldl (· ||| ·) 0
      some (⟨sign, affected, .bits bits, mentionedBy affected letters⟩, cs.drop letters.length)
  | [], [] => some (⟨sign, affected, .bits 0, 0⟩, [])

/-- The changes of clauses; `within` says that whom they are for has been read. -/
def clauses? : Nat → Bool → Option Nat → List Char → Option (List Change)
  | 0, _, _, _ => none
  | fuel + 1, within, affected, cs =>
    match cs with
    | [] => if within then some [] else none
    | c :: rest =>
      if isSign c then do
        let (change, rest) ← afterSign? c affected rest
        match rest with
        | ',' :: rest => return change :: (← clauses? fuel false none rest)
        | rest => return change :: (← clauses? fuel true affected rest)
      else if within then none
      else do clauses? fuel false (some (affected.getD 0 ||| (← ofWhom? c))) rest

/-- The changes that a text means. -/
def parse? (text : List Char) : Option (List Change) :=
  if text.head?.any isOctal then
    let mode := octal text
    if !text.all isOctal || all < mode then none
    else
      let mentioned := if text.length < 5 then (mode &&& identity) ||| 0o1777 else all
      some [⟨'=', some all, .bits mode, mentioned⟩]
  else clauses? (text.length + 1) false none text

/-- The bits of `identity` that a change keeps because they are not named. -/
def kept (c : Change) : Nat := without identity c.mentioned

/-- The bits that a change takes for a directory with these permissions.  What is not for anybody in
particular leaves out the bits in `masked`. -/
def bits (masked mode : Nat) (c : Change) : Nat :=
  let value := match c.source with
    | .bits value => value
    | .copied mask =>
      let some_ := mode &&& mask
      [0o444, 0o222, 0o111].foldl (fun b m => if some_ &&& m ≠ 0 then b ||| m else b) some_
  without (value &&& c.affected.getD (without all masked)) c.kept

/-- The bits that an assignment leaves as they are. -/
def preserved (c : Change) : Nat :=
  (match c.affected with
    | some affected => without all affected
    | none => 0) ||| c.kept

/-- The permissions of a directory after a change, and the bits that changes have decided on, with
those in `decided`. -/
def apply (masked : Nat) (before : Nat × Nat) (c : Change) : Nat × Nat :=
  let (mode, decided) := before
  let bits := c.bits masked mode
  if c.sign = '+' then (mode ||| bits, decided ||| bits)
  else if c.sign = '-' then (without mode bits, decided ||| bits)
  else ((mode &&& c.preserved) ||| bits, decided ||| without all c.preserved)

end Change

/-- Permissions in letters, after the letter of a kind of entry. -/
def letters (kind : Char) (mode : Nat) : String :=
  let triple (shift special : Nat) (with_ without_ : Char) : List Char :=
    let bits := mode >>> shift
    let isSpecial := mode &&& special ≠ 0
    [if bits &&& 4 ≠ 0 then 'r' else '-', if bits &&& 2 ≠ 0 then 'w' else '-',
      if bits &&& 1 ≠ 0 then (if isSpecial then with_ else 'x')
      else if isSpecial then without_ else '-']
  String.ofList (kind :: triple 6 0o4000 's' 'S' ++ triple 3 0o2000 's' 'S' ++
    triple 0 0o1000 't' 'T')

end BlockFlow.Permissions
