import BlockFlow.Proofs.Files.Paths

/-!
# Where a path leads by its text

`Path.resolve` follows the names of a path without a look at the file system: a dot stays, two dots
lead up, and any other name leads down. Above the root there is only the root; above the directory
that relative paths start from the dots are kept.

## Key results

- `Path.resolve_join_plain`: a plain name leads to the entry of this name
- `Path.resolve_join_dots`: two dots lead up
- `Place.parent_eq_self_iff`: only the root is above itself
-/

namespace BlockFlow

/-- A place in a file system, by the names that lead down to it from the root, or from the directory
that relative paths start from. -/
structure Place where
  rooted : Bool
  names : List String
  deriving DecidableEq

namespace Place

/-- One name further down. -/
def child (d : Place) (n : String) : Place := { d with names := d.names ++ [n] }

/-- One name back up. -/
def parent (d : Place) : Place :=
  match d.names.getLast? with
  | none => if d.rooted then d else d.child ".."
  | some n => if n = ".." then d.child ".." else { d with names := d.names.dropLast }

/-- Where a name leads. -/
def step (d : Place) (n : String) : Place := if n = ".." then d.parent else d.child n

/-- The root of the file system. -/
def root : Place := ⟨true, []⟩

/-- The place is the entry of this name in a directory. Two dots are no entry: they lead out. -/
def IsEntry (p d : Place) (n : String) : Prop := n ≠ ".." ∧ p = d.child n

variable {d d' : Place} {n n' : String}

theorem child_inj : d.child n = d'.child n' ↔ d = d' ∧ n = n' := by
  obtain ⟨rooted, names⟩ := d
  obtain ⟨rooted', names'⟩ := d'
  simp only [child, mk.injEq, List.append_singleton_inj, and_assoc]

theorem child_ne_self (d : Place) (n : String) : d.child n ≠ d := by
  intro h
  have hlength := congrArg (fun p => p.names.length) h
  simp [child] at hlength

/-- What is above a place, seen from where it is. -/
theorem parent_cases (d : Place) : d = root ∧ d.parent = d ∨ d.parent = d.child ".." ∨
    ∃ p n, n ≠ ".." ∧ d = p.child n ∧ d.parent = p := by
  obtain ⟨rooted, names⟩ := d
  rcases List.eq_nil_or_concat names with rfl | ⟨front, n, rfl⟩
  · cases rooted
    · exact .inr (.inl rfl)
    · exact .inl ⟨rfl, rfl⟩
  · rw [List.concat_eq_append]
    by_cases hn : n = ".."
    · exact .inr (.inl (by simp [parent, hn]))
    · exact .inr (.inr ⟨⟨rooted, front⟩, n, hn, rfl, by simp [parent, hn]⟩)

/-- Only the root is above itself. -/
theorem parent_eq_self_iff : d.parent = d ↔ d = root := by
  constructor
  · intro h
    rcases d.parent_cases with ⟨hroot, -⟩ | hdots | ⟨p, n, -, rfl, hp⟩
    · exact hroot
    · exact absurd (hdots.symm.trans h) (d.child_ne_self _)
    · exact absurd (h.symm.trans hp) (p.child_ne_self n)
  · rintro rfl
    rfl

/-- No entry of a place is above it. -/
theorem parent_ne_child (hn : n ≠ "..") : d.parent ≠ d.child n := by
  rcases d.parent_cases with ⟨-, hself⟩ | hdots | ⟨p, m, -, rfl, hp⟩
  · rw [hself]
    exact (d.child_ne_self n).symm
  · rw [hdots]
    exact fun h => hn (child_inj.1 h).2.symm
  · rw [hp]
    intro h
    have hlength := congrArg (fun q => q.names.length) h
    simp [child] at hlength

end Place

namespace Path

/-- The place to which a path leads by its text. -/
def resolve (p : Path) : Place := p.names.foldl Place.step ⟨p.isAbsolute, []⟩

/-- A relative path goes on from where another one leads. -/
theorem resolve_join {q : Path} (hq : q.isAbsolute = false) (p : Path) :
    (join p q).resolve = q.names.foldl Place.step p.resolve := by
  rw [resolve, names_join_relative hq, isAbsolute_join_relative hq, List.foldl_append, resolve]

theorem resolve_join_plain {n : String} (hn : Plain n) (p : Path) :
    (join p n).resolve = p.resolve.child n := by
  have hnames : (join p n).names = p.names ++ [n] := names_join hn p
  rw [resolve, hnames, isAbsolute_join_relative hn.isAbsolute, List.foldl_concat, Place.step,
    if_neg hn.ne_dots, resolve]

/-- An empty name and a single dot lead nowhere. -/
theorem resolve_join_blank {n : String} (hn : n = "" ∨ n = ".") (p : Path) :
    (join p n).resolve = p.resolve := by
  rcases hn with rfl | rfl
  · exact resolve_join rfl p
  · exact resolve_join rfl p

theorem resolve_join_dots (p : Path) : (join p "..").resolve = p.resolve.parent :=
  resolve_join rfl p

end Path

end BlockFlow
